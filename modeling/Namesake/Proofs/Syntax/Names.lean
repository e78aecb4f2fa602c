import Namesake.Proofs.Syntax.Positions
import Namesake.Usage

/-!
A term with a name comes of an identifier, which is spelled as its name, or of a string.
-/

namespace Namesake

open List

/-- Whether a place starts before another one and ends no later than the other one starts. -/
def Location.Before (earlier later : Location) : Prop :=
  ∃ start stop next : Int, earlier.first.offset = .int start ∧ earlier.last.offset = .int stop ∧
    later.first.offset = .int next ∧ start < next ∧ stop ≤ next

def Location.Apart (place other : Location) : Prop :=
  place.file = other.file → place.Before other ∨ other.Before place

theorem Location.Apart.symm {place other : Location} (apart : place.Apart other) :
    other.Apart place :=
  fun same => (apart same.symm).symm

/-- Whether the text at a place spells a name the way a term does: an identifier is spelled as its
name, and a string stands for its name once the text is put between its quotes. -/
def Node.SpelledAt (node : Node) (place : Location) (source : String) (spelling : Text) : Prop :=
  (node.kind = .identifier ∧ Text.ofString (place.text source) = spelling) ∨
    (node.kind = .literal ∧ ∃ quote : Char, (quote = '"' ∨ quote = '\'') ∧
      node.dataAt? "raw" = some (.text (.ofChars (quote :: ((place.text source).toList ++ [quote])))) ∧
      Literal.string (quote :: ((place.text source).toList ++ [quote])) = spelling)

theorem Literal.number_ne_text (chars : List Char) (value : Text) : number chars ≠ .text value := by
  intro isText
  unfold number at isText
  cases found : number? chars with
  | none =>
    rw [found] at isText
    cases isText
  | some data =>
    rw [found] at isText
    obtain rfl : data = .text value := isText
    unfold number? at found
    dsimp only at found
    split at found
    · obtain ⟨_, _, same⟩ := Option.map_eq_some_iff.1 found
      cases same
    · obtain ⟨_, _, same⟩ := Option.map_eq_some_iff.1 found
      cases same
    · split at found
      · cases found
      · obtain ⟨_, _, same⟩ := Option.map_eq_some_iff.1 found
        cases same

namespace Token

/-- The number of characters at either end of a token that do not belong to its name. -/
def margin (token : Token) : Nat :=
  if token.kind = .string then 1 else 0

def namePlace (file : String) (token : Token) : Location where
  file := file
  first := ⟨.int (token.extent.first.offset + token.margin), .int token.extent.first.line,
    .int (token.extent.first.column + token.margin)⟩
  last := ⟨.int (token.extent.last.offset - token.margin), .int token.extent.last.line,
    .int (token.extent.last.column - token.margin)⟩

variable {token : Token} {file : String}

theorem cases_of_tokenName? {address : Address} {spelling : Text}
    (named : (⟨address, token.term file⟩ : Occurrence).tokenName? = some (.text spelling)) :
    ((token.term file).kind = .identifier ∧ token.kind ≠ .string ∧
        Text.ofChars token.text = spelling) ∨
      ((token.term file).kind = .literal ∧ token.kind = .string ∧
        (token.term file).dataAt? "raw" = some (.text (.ofChars token.text)) ∧
        Literal.string token.text = spelling) := by
  generalize nodeEq : token.term file = node at named ⊢
  unfold term at nodeEq
  dsimp only at nodeEq
  split at nodeEq
  all_goals subst nodeEq
  case h_1 | h_2 | h_3 | h_6 => cases named
  case h_4 =>
    unfold Occurrence.tokenName? at named
    split at named
    · rename_i sameNode
      cases sameNode
    · rename_i value _ _ sameNode
      injection sameNode with _ sameFields
      injection sameFields with sameValue
      injection sameValue with isText
      exact absurd isText (Literal.number_ne_text _ _)
    · cases named
  case h_5 kindEq =>
    cases named
    exact .inr ⟨rfl, kindEq, rfl, rfl⟩
  case h_7 notString _ =>
    cases named
    exact .inl ⟨rfl, notString, rfl⟩

variable {source : String}

theorem margin_lt (piece : token.IsPiece source.toList) (spelled : token.WellSpelled) :
    token.extent.first.offset + token.margin < token.extent.last.offset := by
  have nonempty := piece.lt
  unfold margin
  split
  · rename_i isString
    obtain ⟨quote, inner, _, textEq⟩ := spelled.quoted isString
    obtain ⟨before, after, _, _, extentEq⟩ := piece
    rw [extentEq, Position.offset_after, Position.offset_after, textEq]
    simp only [length_append, length_cons]
    omega
  · omega

theorem before_namePlace {next : Token} (piece : token.IsPiece source.toList)
    (spelled : token.WellSpelled)
    (ordered : token.extent.last.offset ≤ next.extent.first.offset) :
    (token.namePlace file).Before (next.namePlace file) := by
  have within := margin_lt piece spelled
  refine ⟨_, _, _, rfl, rfl, rfl, ?_, ?_⟩
  · omega
  · omega

theorem spelledAt_namePlace (piece : token.IsPiece source.toList) (spelled : token.WellSpelled)
    {address : Address} {spelling : Text}
    (named : (⟨address, token.term file⟩ : Occurrence).tokenName? = some (.text spelling)) :
    (token.term file).SpelledAt (token.namePlace file) source spelling := by
  obtain ⟨before, after, sourceEq, _, extentEq⟩ := piece
  have firstOffset : token.extent.first.offset = before.length := by
    rw [extentEq, Position.offset_after]
  have lastOffset : token.extent.last.offset = before.length + token.text.length := by
    rw [extentEq, Position.offset_after, length_append, Int.natCast_add]
  have first : (token.namePlace file).first.offset = .int (before.length + token.margin : Nat) := by
    rw [namePlace, firstOffset, Int.natCast_add]
  have last : (token.namePlace file).last.offset =
      .int (before.length + token.text.length - token.margin) := by
    rw [namePlace, lastOffset]
  rcases cases_of_tokenName? named with ⟨isIdentifier, notString, rfl⟩ |
    ⟨isLiteral, isString, raw, rfl⟩
  · have noMargin : token.margin = 0 := if_neg notString
    rw [noMargin] at first last
    have textEq := Location.text_of_offsets sourceEq first (by simpa using last)
    refine .inl ⟨isIdentifier, ?_⟩
    rw [textEq, Text.ofString, String.toList_ofList]
  · have quoteMargin : token.margin = 1 := if_pos isString
    obtain ⟨quote, inner, isQuote, tokenEq⟩ := spelled.quoted isString
    have inQuotes : source.toList = (before ++ [quote]) ++ (inner ++ (quote :: after)) := by
      rw [sourceEq, tokenEq]
      simp
    rw [quoteMargin] at first last
    have firstIn : (token.namePlace file).first.offset = .int (before ++ [quote]).length := by
      rw [first, length_append, length_singleton]
    have lastIn : (token.namePlace file).last.offset =
        .int ((before ++ [quote]).length + inner.length) := by
      rw [last, tokenEq]
      refine congrArg Data.int ?_
      simp only [length_append, length_cons]
      omega
    have textEq := Location.text_of_offsets inQuotes firstIn lastIn
    refine .inr ⟨isLiteral, quote, isQuote, ?_, ?_⟩
    · rw [textEq, String.toList_ofList, ← tokenEq]
      exact raw
    · rw [textEq, String.toList_ofList, ← tokenEq]

end Token

namespace SourceFile

variable {file : SourceFile} {tolerant : Bool} {program : Node}

theorem exists_tokens_of_sublist (parsed : (file.parse tolerant).result = .ok program)
    {nodes : List Node} (some : nodes.Sublist program.terms) :
    ∃ tokens : List Token, nodes = tokens.map (Token.term file.name) ∧
      (∀ token ∈ tokens, token.IsPiece file.text.toList ∧ token.WellSpelled) ∧
      tokens.Pairwise fun token next => token.extent.last.offset ≤ next.extent.first.offset := by
  obtain ⟨_, ordered, _, derivation, read, leavesEq, termsEq⟩ := terms_of_parse parsed
  obtain ⟨_, account⟩ := Derivation.accounts_read file.text tolerant derivation read
  have sound := (Derivation.sound_read file.text tolerant derivation read).1
  have follow : (derivation.leaves.filter fun leaf => !leaf.token.isInserted).Pairwise
      fun leaf next => leaf.token.extent.last.offset ≤ next.token.extent.first.offset := by
    have kept := ordered.filter fun token => token ∉ file.tokensLeftOut tolerant
    rw [← leavesEq, pairwise_map] at kept
    refine kept.imp fun before => ?_
    rwa [Token.extent_asRead, Token.extent_asRead] at before
  rw [termsEq] at some
  obtain ⟨leaves, leavesSublist, rfl⟩ := sublist_map_iff.1 some
  refine ⟨leaves.map Leaf.token, by rw [map_map]; rfl, ?_, ?_⟩
  · intro token member
    obtain ⟨leaf, leafMember, rfl⟩ := mem_map.1 member
    obtain ⟨leafKept, isTerm⟩ := mem_filter.1 (leavesSublist.subset leafMember)
    have ofDerivation := derivation.mem_tokens (mem_filter.1 leafKept).1
    have isOf := account.isOf leaf.token ofDerivation
    exact ⟨isOf.isPiece (Leaf.not_isInserted_of_isTerm isOf isTerm),
      sound.wellSpelled leaf.token ofDerivation⟩
  · rw [pairwise_map]
    exact follow.sublist (leavesSublist.trans filter_sublist)

end SourceFile

end Namesake
