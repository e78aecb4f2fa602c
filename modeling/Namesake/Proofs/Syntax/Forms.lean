import Namesake.Proofs.Syntax.Phrase
import Namesake.SourceFile

/-!
Every syntax tree has the shape of a program and grows from its tokens.

Every sound derivation gives what its symbol promises, or a phrase that is not allowed, and what
it gives grows from its tokens.
-/

namespace Namesake

open List Part

variable {production : Production}

open Pattern Mold

def Symbol.isNullable : Symbol → Bool
  | .terminal _ => false
  | .nonterminal phrase =>
    match phrase with
    | .program | .forInit | .forTest | .forUpdate | .arrayItem => true
    | _ => false

/-- Whether a symbol of a phrase is an identifier, a token that is no term, or a phrase other than a
whole program. -/
def Symbol.isPlainIn (phrase : Nonterminal) : Symbol → Bool
  | .terminal kind => kind.isTermIn phrase = decide (kind = .identifier)
  | .nonterminal inner => inner ≠ .program

def Production.isGrowing (production : Production) : Bool :=
  match production.form with
  | .identifier | .nullLiteral | .trueLiteral | .falseLiteral | .numberLiteral | .stringLiteral
  | .regexLiteral =>
    match production.body with
    | [.terminal kind] =>
      production.form.termKinds.contains kind && kind.isTermIn production.head
    | _ => false
  | .program => production.head = .program
  | .inner | .items | .optional => true
  | _ => production.body.any fun symbol => !symbol.isNullable

-- The rules are gone through once for all that is said of them here.
theorem Grammar.grows_of_mem_rules : ∀ production ∈ rules,
    production.isGrowing = true ∧
    (Symbol.isNullable (.nonterminal production.head) = true ∨
      production.body.any (fun symbol => !symbol.isNullable) = true) ∧
    (production.head = .program → production.form = .program) ∧
    (production.form.termKinds = [] → ∀ symbol ∈ production.body,
      symbol.isPlainIn production.head = true) ∧
    (production.form = .emptyStatement → production.head = .emptyStatement) ∧
    (production.head = .emptyStatement → production.body = [.terminal .semicolon]) := by
  decide +kernel

theorem Grammar.body_of_termKinds (rule : production ∈ rules)
    (termForm : production.form.termKinds ≠ []) :
    ∃ kind, production.body = [.terminal kind] ∧ kind ∈ production.form.termKinds ∧
      kind.isTermIn production.head = true := by
  have growing := (grows_of_mem_rules production rule).1
  obtain ⟨head, body, form⟩ := production
  unfold Production.isGrowing at growing
  cases form <;> dsimp only at growing termForm ⊢ <;> first
    | exact absurd rfl termForm
    | split at growing
      · simpa using growing
      · cases growing

theorem Production.typed_of_rule (rule : production ∈ Grammar.rules) :
    (production.form = .inner ∨ production.form = .items) ∧
        production.head.yield.covers (Symbol.yieldAll production.body) = true ∨
      (∃ pattern ∈ production.form.accepted,
          pattern.covers (Symbol.yieldAll production.body) = true) ∧
        production.head.yield.covers production.form.made = true := by
  have typed := Grammar.isTyped_of_mem_rules production rule
  unfold Production.isTyped at typed
  dsimp only at typed
  split at typed
  · exact .inl ⟨.inl ‹_›, typed⟩
  · exact .inl ⟨.inr ‹_›, typed⟩
  · rw [Bool.and_eq_true, any_eq_true] at typed
    exact .inr typed

/-- Whether something is a list of parts as a pattern says, or a phrase that is not allowed. -/
def Pattern.Admits (file : String) (pattern : Pattern) : Except SyntaxError (List Part) → Prop
  | .ok parts => pattern.Matches file parts
  | .error error => error.isMisshapen = false

theorem Production.admits_of_rule (rule : production ∈ Grammar.rules) {file : String}
    {extent : Option Extent} {parts : List Part}
    (given : (Symbol.yieldAll production.body).Matches file parts) :
    production.head.yield.Admits file (Phrase.make file production.form extent parts) := by
  rcases typed_of_rule rule with ⟨form | form, covered⟩ | ⟨⟨pattern, member, covered⟩, promised⟩
  · rw [form]
    exact given.of_covers covered
  · rw [form]
    exact given.of_covers covered
  · have gives : Phrase.Gives file production.form extent parts _ :=
      Phrase.make_gives ⟨pattern, member, given.of_covers covered⟩
    generalize Phrase.make file production.form extent parts = made at gives ⊢
    cases made with
    | error error => exact gives
    | ok result => exact gives.1.of_covers promised

namespace Derivation

variable {file : String}
variable {derivations : List Derivation} {parts : List Part}

mutual

theorem Sound.admits_parts {derivation : Derivation} (sound : derivation.Sound) (file : String) :
    derivation.symbol.yield.Admits file (derivation.parts file) := by
  cases derivation with
  | leaf token =>
    rw [Derivation.parts]
    simp only [symbol, Symbol.yield]
    split
    · exact matches_single.2 ⟨_, rfl, fitsSome_singleton.2 ⟨rfl, sound⟩⟩
    · exact matches_empty.2 rfl
  | branch production derivations =>
    obtain ⟨rule, symbols, allSound⟩ := sound
    have inside := allSound.admits_partsAll file
    rw [symbols] at inside
    rw [Derivation.parts]
    cases insideEq : partsAll file derivations with
    | error fault =>
      rw [insideEq] at inside
      exact inside
    | ok parts =>
      rw [insideEq] at inside
      exact Production.admits_of_rule rule inside

theorem AllSound.admits_partsAll {derivations : List Derivation} (sound : AllSound derivations)
    (file : String) :
    (Symbol.yieldAll (derivations.map symbol)).Admits file (partsAll file derivations) := by
  cases derivations with
  | nil => exact matches_empty.2 rfl
  | cons derivation rest =>
    have first := sound.1.admits_parts file
    have others := sound.2.admits_partsAll file
    rw [partsAll]
    cases firstEq : derivation.parts file with
    | error fault =>
      rw [firstEq] at first
      exact first
    | ok firstParts =>
      rw [firstEq] at first
      cases othersEq : partsAll file rest with
      | error fault =>
        rw [othersEq] at others
        exact others
      | ok otherParts =>
        rw [othersEq] at others
        exact first.append others

end

theorem tokensAll_ne_nil (full : (derivations.map symbol).any (!·.isNullable) = true)
    (each : ∀ part ∈ derivations, part.symbol.isNullable = false → part.tokens ≠ []) :
    tokensAll derivations ≠ [] := by
  rw [any_map, any_eq_true] at full
  obtain ⟨part, member, partFull⟩ := full
  rw [tokensAll_eq, Ne, flatMap_eq_nil_iff]
  exact fun empty => each part member (by simpa using partFull) (empty part member)

theorem Sound.tokens_ne_nil {derivation : Derivation} (sound : derivation.Sound)
    (full : derivation.symbol.isNullable = false) : derivation.tokens ≠ [] := by
  induction derivation using ofParts with
  | leaf token => simp [tokens]
  | branch production parts ih =>
    obtain ⟨rule, symbols, allSound⟩ := sound
    have someFull := (Grammar.grows_of_mem_rules production rule).2.1.resolve_left
      (Bool.eq_false_iff.1 full)
    rw [← symbols] at someFull
    exact tokensAll_ne_nil someFull fun part member =>
      ih part member (allSound_iff.1 allSound part member)

theorem eq_leaf_of_symbols {kind : Terminal} (symbols : derivations.map symbol = [.terminal kind]) :
    ∃ token, derivations = [leaf token] ∧ token.kind = kind := by
  obtain ⟨derivation, rfl, symbolEq⟩ := map_eq_singleton_iff.1 symbols
  cases derivation with
  | leaf token =>
    cases symbolEq
    exact ⟨token, rfl, rfl⟩
  | branch production parts => cases symbolEq

theorem parts_term {token : Token} (spelled : token.WellSpelled)
    (isTerm : token.kind ∈ production.form.termKinds) :
    (branch production [leaf token]).parts file = .ok [.node (token.term file)] := by
  obtain ⟨head, body, form⟩ := production
  have word {kind : Terminal} {word : String} (kindEq : token.kind = kind)
      (only : kind.spellings = [word]) :
      Phrase.spelling token = .data (.ofString word) :=
    Phrase.spelling_of_wellSpelled spelled kindEq only
  obtain ⟨kind, text, extent⟩ := token
  cases form <;> simp only [Form.termKinds, mem_cons, not_mem_nil, or_false] at isTerm
  case identifier => rcases isTerm with rfl | rfl | rfl <;> rfl
  case numberLiteral | stringLiteral | regexLiteral =>
    subst isTerm
    rfl
  case nullLiteral | trueLiteral | falseLiteral =>
    subst isTerm
    simp only [Token.term, word rfl rfl]
    rfl

theorem parts_branch (given : (branch production derivations).parts file = .ok parts) :
    ∃ inside, partsAll file derivations = .ok inside ∧
      Phrase.make file production.form (branch production derivations).extent inside =
        .ok parts := by
  rw [Derivation.parts] at given
  cases insideEq : partsAll file derivations with
  | error fault =>
    rw [insideEq] at given
    cases given
  | ok inside =>
    rw [insideEq] at given
    exact ⟨inside, rfl, given⟩

theorem nodesIn_of_make {form : Form} (passes : form = .inner ∨ form = .items ∨ form = .optional)
    {extent : Option Extent} {result : List Part}
    (made : Phrase.make file form extent parts = .ok result) :
    result.flatMap (nodesIn file) = parts.flatMap (nodesIn file) := by
  rcases passes with rfl | rfl | rfl
  · cases made
    rfl
  · cases made
    rfl
  · match parts, made with
    | [], made =>
      cases made
      rfl
    | [.node expression], made =>
      cases made
      rfl
    | [.token _], made => cases made
    | [.nodes _], made => cases made
    | [.hole], made => cases made
    | first :: _ :: _, made => cases first <;> cases made

theorem grown_of_rule (rule : production ∈ Grammar.rules) (inner : production.head ≠ .program)
    (plain : production.form.termKinds = []) {inside : List Part}
    (symbols : derivations.map symbol = production.body) (sound : AllSound derivations)
    (given : partsAll file derivations = .ok inside)
    (grown : Grown file (leavesAll production.head derivations) (inside.flatMap (nodesIn file)))
    (made : Phrase.make file production.form (branch production derivations).extent inside = .ok
      parts) :
    Grown file (leavesAll production.head derivations) (parts.flatMap (nodesIn file)) := by
  by_cases passes : production.form = .inner ∨ production.form = .items ∨
      production.form = .optional
  · rw [nodesIn_of_make passes made]
    exact grown
  · obtain ⟨growing, _, _, _, headEq, bodyEq⟩ := Grammar.grows_of_mem_rules production rule
    have full : production.body.any (fun symbol => !symbol.isNullable) = true := by
      unfold Production.isGrowing at growing
      split at growing
      all_goals simp_all [Form.termKinds]
    obtain ⟨⟨pattern, member, covered⟩, _⟩ := (Production.typed_of_rule rule).resolve_left
      fun passed => passes (passed.1.imp_right .inl)
    rw [← symbols] at full
    obtain ⟨extent, spanned⟩ := Token.exists_span (tokensAll_ne_nil full fun part member =>
      (allSound_iff.1 sound part member).tokens_ne_nil)
    have extentEq : (branch production derivations).extent = some extent := by
      rw [Derivation.extent, if_neg (by simp_all), coverAll_eq_span, spanned]
    rw [← map_token_leavesAll production.head] at spanned
    have matched := sound.admits_partsAll file
    rw [symbols, given] at matched
    have gives : Phrase.Gives file production.form (branch production derivations).extent inside _ :=
      Phrase.make_gives ⟨pattern, member, matched.of_covers covered⟩
    rw [made] at gives
    refine gives.2 plain _ extent extentEq (fun isEmpty => ?_) spanned grown
    rw [bodyEq (headEq isEmpty)] at symbols
    obtain ⟨token, rfl, isSemicolon⟩ := eq_leaf_of_symbols symbols
    rw [headEq isEmpty]
    exact ⟨token, isSemicolon, rfl⟩

mutual

theorem Sound.grown {derivation : Derivation} (sound : derivation.Sound) {phrase : Nonterminal}
    (plain : derivation.symbol.isPlainIn phrase = true) {parts : List Part}
    (given : derivation.parts file = .ok parts) :
    Grown file (derivation.leavesIn phrase) (parts.flatMap (nodesIn file)) := by
  cases derivation with
  | leaf token =>
    have isTerm : token.kind.isTermIn phrase = decide (token.kind = .identifier) := by
      simpa [symbol, Symbol.isPlainIn] using plain
    rw [Derivation.parts] at given
    cases given
    by_cases isName : token.kind = .identifier
    · have named : token.term file = Phrase.name file token := by simp [Token.term, isName]
      have grown : Grown file ((leaf token).leavesIn phrase) [token.term file] :=
        .term (by simpa [Leaf.isTerm, isName] using isTerm)
      simpa [isName, Terminal.isContent, nodesIn, named] using grown
    · have grown : Grown file ((leaf token).leavesIn phrase) [] :=
        .mark (by simpa [Leaf.isTerm, isName] using isTerm)
      split
      · simpa [nodesIn, isName] using grown
      · exact grown
  | branch production derivations =>
    obtain ⟨rule, symbols, allSound⟩ := sound
    have inner : production.head ≠ .program := by
      simpa [symbol, Symbol.isPlainIn] using plain
    by_cases termForm : production.form.termKinds = []
    · obtain ⟨inside, insideEq, made⟩ := parts_branch given
      have allPlain : ∀ part ∈ derivations, part.symbol.isPlainIn production.head = true := by
        intro part member
        refine (Grammar.grows_of_mem_rules production rule).2.2.2.1 termForm _ ?_
        rw [← symbols]
        exact mem_map_of_mem member
      exact grown_of_rule rule inner termForm symbols allSound insideEq
        (allSound.grown allPlain insideEq) made
    · obtain ⟨kind, bodyEq, isTerm, inPhrase⟩ := Grammar.body_of_termKinds rule termForm
      rw [bodyEq] at symbols
      obtain ⟨token, rfl, rfl⟩ := eq_leaf_of_symbols symbols
      rw [parts_term allSound.1 isTerm] at given
      cases given
      exact .term inPhrase

theorem AllSound.grown {derivations : List Derivation} (sound : AllSound derivations)
    {phrase : Nonterminal}
    (plain : ∀ part ∈ derivations, part.symbol.isPlainIn phrase = true) {parts : List Part}
    (given : partsAll file derivations = .ok parts) :
    Grown file (leavesAll phrase derivations) (parts.flatMap (nodesIn file)) := by
  cases derivations with
  | nil =>
    rw [partsAll] at given
    cases given
    exact .nil
  | cons derivation rest =>
    rw [forall_mem_cons] at plain
    rw [partsAll] at given
    cases firstEq : derivation.parts file with
    | error fault =>
      rw [firstEq] at given
      cases given
    | ok first =>
      cases othersEq : partsAll file rest with
      | error fault =>
        rw [firstEq, othersEq] at given
        cases given
      | ok others =>
        rw [firstEq, othersEq] at given
        cases given
        rw [flatMap_append]
        exact (sound.1.grown plain.1 firstEq).append (sound.2.grown plain.2 othersEq)

end

theorem Sound.grown_program {derivation : Derivation} (sound : derivation.Sound)
    (isProgram : derivation.symbol = .nonterminal .program)
    (given : derivation.parts file = .ok parts) :
    ∃ (body : List Node) (location : Location),
      parts = [.node (.mk .program [Phrase.listOf body, .data (.ofString file)] location)] ∧
        Grown file derivation.leaves body := by
  cases derivation with
  | leaf token => cases isProgram
  | branch production derivations =>
    obtain ⟨rule, symbols, allSound⟩ := sound
    have headEq : production.head = .program := by simpa [symbol] using isProgram
    have formEq := (Grammar.grows_of_mem_rules production rule).2.2.1 headEq
    obtain ⟨inside, insideEq, made⟩ := parts_branch given
    have allPlain : ∀ part ∈ derivations, part.symbol.isPlainIn production.head = true := by
      intro part member
      refine (Grammar.grows_of_mem_rules production rule).2.2.2.1 (by rw [formEq]; rfl) _ ?_
      rw [← symbols]
      exact mem_map_of_mem member
    have grown := allSound.grown allPlain insideEq
    rw [formEq] at made
    unfold Phrase.make at made
    dsimp only at made
    split at made
    · rename_i body bodyEq
      cases made
      refine ⟨body, _, rfl, ?_⟩
      have nodesEq : inside.flatMap (nodesIn file) = body := nodesIn_of_allNodes? bodyEq
      rw [nodesEq] at grown
      exact grown
    · cases made

end Derivation

namespace SourceFile

variable {file : SourceFile} {tolerant : Bool} {program : Node}

theorem exists_parts (parsed : (file.parse tolerant).result = .ok program) :
    ∃ derivation kind fields location,
      (Derivation.read file.text tolerant).result = .ok derivation ∧ derivation.Sound ∧
      derivation.symbol = .nonterminal .program ∧
      derivation.parts file.name = .ok [.node (.mk kind fields location)] ∧
      program = .mk kind fields file.span := by
  unfold parse at parsed
  dsimp only at parsed
  split at parsed
  · cases parsed
  · rename_i derivation read
    obtain ⟨sound, isProgram⟩ := Derivation.sound_read file.text tolerant derivation read
    split at parsed
    · cases parsed
    · rename_i made
      cases parsed
      unfold Derivation.toNode at made
      cases partsEq : derivation.parts file.name with
      | error fault =>
        rw [partsEq] at made
        cases made
      | ok parts =>
        rw [partsEq] at made
        have admits := sound.admits_parts file.name
        rw [isProgram, partsEq] at admits
        obtain ⟨⟨kind, fields, location⟩, _, rfl, _, nothing⟩ :=
          (matches_cons_of fun _ => fitsSome_node).1 admits
        obtain rfl := matches_nil.1 nothing
        cases made
        exact ⟨derivation, kind, fields, location, read, sound, isProgram, partsEq, rfl⟩

theorem fits_parse (parsed : (file.parse tolerant).result = .ok program) :
    program.Fits file.name .program := by
  obtain ⟨derivation, kind, fields, location, read, sound, isProgram, partsEq, rfl⟩ :=
    exists_parts parsed
  have admits := sound.admits_parts file.name
  rw [isProgram, partsEq] at admits
  obtain ⟨_, _, same, fits, _⟩ := (matches_cons_of fun _ => fitsSome_node).1 admits
  cases same
  exact ⟨fits.1, ⟨_, _, rfl⟩, fits.2.2⟩

theorem children_program (file : SourceFile) (body : List Node) :
    (Node.mk .program [Phrase.listOf body, .data (.ofString file.name)] file.span).children = body := by
  simp

theorem exists_grown (parsed : (file.parse tolerant).result = .ok program) :
    ∃ derivation body, (Derivation.read file.text tolerant).result = .ok derivation ∧
      program = .mk .program [Phrase.listOf body, .data (.ofString file.name)] file.span ∧
      Grown file.name derivation.leaves body := by
  obtain ⟨derivation, kind, fields, location, read, sound, isProgram, partsEq, rfl⟩ :=
    exists_parts parsed
  obtain ⟨body, _, same, grown⟩ := sound.grown_program isProgram partsEq
  cases same
  exact ⟨derivation, body, read, rfl, grown⟩

end SourceFile

end Namesake
