import Mathlib.Data.Option.Basic
import Namesake.Derivation.Reader

/-!
A derivation is sound if each of its tokens is spelled as its kind demands and each of its
branches is a production of the grammar over derivations of the symbols of its body.
-/

namespace Namesake

open List

variable {chars : List Char} {length : Nat} {kind : Terminal} {token : Token}

def Lexeme.IsQuoted (chars : List Char) : Prop :=
  ∃ quote inner, (quote = '"' ∨ quote = '\'') ∧ chars = quote :: (inner ++ [quote])

/-- Whether a token of a kind with fixed spellings has one of them, a string stands between quotes,
and the token does not start with the mark of the synthetic names. -/
structure Token.WellSpelled (token : Token) : Prop where
  word : token.kind.spellings = [] ∨ ∃ word ∈ token.kind.spellings, word.toList = token.text
  start : token.text.head? ≠ some '@'
  quoted : token.kind = .string → Lexeme.IsQuoted token.text

namespace Derivation

mutual

def Sound : Derivation → Prop
  | leaf token => token.WellSpelled
  | branch production parts =>
    production ∈ Grammar.rules ∧ parts.map symbol = production.body ∧ AllSound parts

def AllSound : List Derivation → Prop
  | [] => True
  | part :: rest => part.Sound ∧ AllSound rest

end

theorem allSound_iff {parts : List Derivation} : AllSound parts ↔ ∀ part ∈ parts, part.Sound := by
  induction parts with
  | nil => simp [AllSound]
  | cons part rest ih => simp [AllSound, ih]

/-- What holds of each token, and of each phrase once it holds of the parts, holds of every
derivation. -/
@[elab_as_elim]
theorem ofParts {motive : Derivation → Prop} (leaf : ∀ token, motive (leaf token))
    (branch : ∀ production parts, (∀ part ∈ parts, motive part) → motive (branch production parts)) :
    ∀ derivation, motive derivation
  | .leaf token => leaf token
  | .branch production parts => branch production parts fun part _ => ofParts leaf branch part

theorem tokensAll_eq (parts : List Derivation) : tokensAll parts = parts.flatMap tokens := by
  induction parts with
  | nil => rfl
  | cons part rest ih => rw [tokensAll, ih, flatMap_cons]

theorem mem_tokens_branch {production : Production} {parts : List Derivation} :
    token ∈ (branch production parts).tokens ↔ ∃ part ∈ parts, token ∈ part.tokens := by
  rw [tokens, tokensAll_eq, mem_flatMap]

theorem Sound.wellSpelled {derivation : Derivation} (sound : derivation.Sound) :
    ∀ token ∈ derivation.tokens, token.WellSpelled := by
  induction derivation using ofParts with
  | leaf own => exact forall_mem_singleton.2 sound
  | branch production parts ih =>
    intro token member
    obtain ⟨part, inParts, inPart⟩ := mem_tokens_branch.1 member
    exact ih part inParts (allSound_iff.1 sound.2.2 part inParts) token inPart

end Derivation

theorem Lexeme.take_of_spelled? {spellings : List String}
    (found : spelled? spellings chars = some length) :
    ∃ word ∈ spellings, word.toList = chars.take length := by
  unfold spelled? at found
  obtain ⟨word, wordFound, rfl⟩ := Option.map_eq_some_iff.1 found
  refine ⟨word, mem_of_find?_eq_some wordFound, ?_⟩
  have starts : word.toList <+: chars := by simpa using List.find?_some wordFound
  rw [← String.length_toList]
  exact prefix_iff_eq_take.1 starts

theorem Lexeme.take_of_stringTail? {quote : Char} (found : stringTail? quote chars = some length) :
    ∃ inner, chars.take length = inner ++ [quote] := by
  fun_induction stringTail? quote chars generalizing length with
  | case1 | case3 => cases found
  | case2 | case4 =>
    cases found
    exact ⟨[], rfl⟩
  | case5 next rest _ ih =>
    obtain ⟨count, countFound, rfl⟩ := Option.map_eq_some_iff.1 found
    obtain ⟨inner, takeEq⟩ := ih countFound
    exact ⟨'\\' :: next :: inner, by simp [takeEq]⟩
  | case6 => cases found
  | case7 char next rest _ _ _ ih =>
    obtain ⟨count, countFound, rfl⟩ := Option.map_eq_some_iff.1 found
    obtain ⟨inner, takeEq⟩ := ih countFound
    exact ⟨char :: inner, by rw [take_succ_cons, takeEq, cons_append]⟩

theorem Lexeme.isQuoted_of_string? (found : string? chars = some length) :
    IsQuoted (chars.take length) := by
  cases chars with
  | nil => cases found
  | cons quote rest =>
    rw [string?] at found
    split at found
    · rename_i isQuote
      obtain ⟨count, countFound, rfl⟩ := Option.map_eq_some_iff.1 found
      obtain ⟨inner, takeEq⟩ := take_of_stringTail? countFound
      exact ⟨quote, inner, by simpa using isQuote, by rw [take_succ_cons, takeEq]⟩
    · cases found

theorem Terminal.take_of_lexeme? (found : kind.lexeme? chars = some length) :
    kind.spellings = [] ∨ ∃ word ∈ kind.spellings, word.toList = chars.take length := by
  cases kind with
  | regex => exact .inl rfl
  | number => exact .inl rfl
  | string => exact .inl rfl
  | identifier => exact .inl rfl
  | _ => exact .inr (Lexeme.take_of_spelled? found)

theorem Terminal.head?_of_mem_spellings {word : String} (member : word ∈ kind.spellings) :
    ∃ first, word.toList.head? = some first ∧ first ≠ '@' := by
  have table : ∀ kind : Terminal, kind.spellings.all
      (fun word => word.toList.head?.any (· ≠ '@')) = true := by
    intro kind
    cases kind <;> decide
  have own := all_eq_true.1 (table kind) word member
  simpa [Option.any_eq_true] using own

theorem Terminal.lexeme?_mark (kind : Terminal) (rest : List Char) :
    kind.lexeme? ('@' :: rest) = none := by
  have spelled (spellings : List String)
      (fixed : ∀ word ∈ spellings, ∃ first, word.toList.head? = some first ∧ first ≠ '@') :
      Lexeme.spelled? spellings ('@' :: rest) = none := by
    unfold Lexeme.spelled?
    rw [Option.map_eq_none_iff, List.find?_eq_none]
    intro word member starts
    obtain ⟨first, firstEq, other⟩ := fixed word member
    cases chars : word.toList with
    | nil =>
      rw [chars] at firstEq
      cases firstEq
    | cons head tail =>
      rw [chars] at firstEq starts
      cases firstEq
      simp only [isPrefixOf_cons_cons, Bool.and_eq_true, beq_iff_eq] at starts
      exact other starts.1
  cases kind with
  | regex => rfl
  | number => rfl
  | string => rfl
  | identifier => rfl
  | _ => exact spelled _ fun word => head?_of_mem_spellings

namespace Vocabulary

variable {vocabulary : Vocabulary}

theorem cases_of_read? (found : vocabulary.read? chars = some (kind, length)) :
    (kind ∈ vocabulary.tried ∧ kind ≠ .identifier ∧ kind.lexeme? chars = some length) ∨
      (.identifier ∈ vocabulary.tried ∧ Lexeme.name? chars = some length ∧
        (kind = .identifier ∨ kind ∈ vocabulary.keywords ∧
          ∃ word ∈ kind.spellings, word.toList = chars.take length)) := by
  unfold read? at found
  obtain ⟨⟨tried, count⟩, triedFound, kindFound⟩ := Option.bind_eq_some_iff.1 found
  obtain ⟨candidate, member, matched⟩ := exists_of_findSome?_eq_some triedFound
  obtain ⟨_, lexeme, pairEq⟩ := Option.map_eq_some_iff.1 matched
  cases pairEq
  dsimp only at kindFound
  split at kindFound
  · rename_i isName
    cases isName
    cases kindFound
    refine .inr ⟨member, lexeme, ?_⟩
    unfold kindOfName
    cases keyword : vocabulary.keywords.find? fun kind =>
        kind.spellings.any fun word => word.toList = chars.take length with
    | none => exact .inl rfl
    | some own =>
      have spelled := List.find?_some keyword
      simp only [any_eq_true, decide_eq_true_eq] at spelled
      exact .inr ⟨mem_of_find?_eq_some keyword, spelled⟩
  · rename_i noName
    cases kindFound
    exact .inl ⟨member, noName, lexeme⟩

theorem take_of_read? (found : vocabulary.read? chars = some (kind, length)) :
    kind.spellings = [] ∨ ∃ word ∈ kind.spellings, word.toList = chars.take length := by
  rcases cases_of_read? found with ⟨_, _, lexeme⟩ | ⟨_, _, rfl | ⟨_, spelled⟩⟩
  · exact Terminal.take_of_lexeme? lexeme
  · exact .inl rfl
  · exact .inr spelled

theorem isQuoted_of_read? (found : vocabulary.read? chars = some (.string, length)) :
    Lexeme.IsQuoted (chars.take length) := by
  rcases cases_of_read? found with ⟨_, _, lexeme⟩ | ⟨_, _, isName | ⟨_, word, member, _⟩⟩
  · exact Lexeme.isQuoted_of_string? lexeme
  · cases isName
  · cases member

theorem head?_of_read? (found : vocabulary.read? chars = some (kind, length)) :
    chars.head? ≠ some '@' := by
  intro marked
  obtain ⟨rest, rfl⟩ := List.head?_eq_some_iff.1 marked
  rcases cases_of_read? found with ⟨_, _, lexeme⟩ | ⟨_, name, _⟩
  · rw [Terminal.lexeme?_mark] at lexeme
    cases lexeme
  · cases (Terminal.lexeme?_mark .identifier rest).symm.trans name

theorem wellSpelled_of_next {cursor behind : Cursor}
    (read : vocabulary.next cursor = .token token behind) : token.WellSpelled := by
  have reads := vocabulary.reads_next cursor
  rw [read] at reads
  cases reads with
  | token _ found =>
    refine ⟨take_of_read? found, ?_, ?_⟩
    · rw [tokenAt, List.head?_take]
      exact head?_of_read? found
    · rintro rfl
      exact isQuoted_of_read? found

end Vocabulary

theorem Token.wellSpelled_semicolonAt (position : Position) :
    (Token.semicolonAt position).WellSpelled :=
  ⟨.inr ⟨";", by simp [semicolonAt, Terminal.spellings], rfl⟩, by simp [semicolonAt], nofun⟩

theorem Automaton.mem_rules_of_action? {state : Nat} {production : Production}
    (found : (row state).action? kind = some (.reduce production)) :
    production ∈ Grammar.rules := by
  unfold Row.action? at found
  split at found
  · cases found
  · obtain ⟨reduction, reductionFound, actionEq⟩ := Option.map_eq_some_iff.1 found
    cases actionEq
    have member : reduction ∈ (row state).reductions := mem_of_find?_eq_some reductionFound
    unfold row rows Array.getD at member
    split at member
    · simp only [Array.getInternal_eq_getElem, getElem_toArray, getElem_map] at member
      obtain ⟨⟨index, terminals⟩, _, productionFound⟩ := mem_filterMap.1 member
      obtain ⟨_, ruleFound, pairEq⟩ := Option.map_eq_some_iff.1 productionFound
      cases pairEq
      exact mem_of_getElem? ruleFound
    · simp at member

-- The table of the automaton is a closed term; nothing below may evaluate it.
attribute [local irreducible] Automaton.rows

namespace Stack

variable {stack : Stack}
variable {program : Derivation}

theorem feedWithin_succ (token : Token) (bound : Nat) (stack : Stack) :
    feedWithin token (bound + 1) stack = match stack.row.action? token.kind with
      | none => .refused stack
      | some (.shift state) => .shifted (⟨state, .leaf token⟩ :: stack)
      | some (.reduce production) =>
        match stack.reduce? production with
        | none => .refused stack
        | some reduced =>
          match if token.kind = .endOfInput then program? reduced else none with
          | some program => .accepted program
          | none => feedWithin token bound reduced :=
  rfl

theorem of_reduce? {reduced : Stack} {production : Production}
    (reducedEq : stack.reduce? production = some reduced) :
    (stack.latest production.body.length).map Derivation.symbol = production.body ∧
      ∃ state, (row (stack.drop production.body.length)).enter? (.nonterminal production.head) =
          some state ∧
        reduced = ⟨state, .branch production (stack.latest production.body.length)⟩ ::
          stack.drop production.body.length := by
  unfold reduce? at reducedEq
  obtain ⟨_, guarded, rest⟩ := Option.bind_eq_some_iff.1 reducedEq
  obtain ⟨state, entered, consEq⟩ := Option.bind_eq_some_iff.1 rest
  cases consEq
  exact ⟨(Option.guard_eq_some' _).1 guarded, state, entered, rfl⟩

theorem of_program? (found : stack.program? = some program) :
    ∃ state, stack = [⟨state, program⟩] ∧ program.symbol = .nonterminal .program := by
  unfold program? at found
  split at found
  · split at found
    · rename_i isProgram
      cases found
      exact ⟨_, rfl, isProgram⟩
    · cases found
  · cases found

/-- Whether one stack comes of another by the reductions that a token causes. -/
inductive Reduces (kind : Terminal) : Stack → Stack → Prop
  | refl (stack : Stack) : Reduces kind stack stack
  | step {stack reduced last : Stack} {production : Production}
      (action : stack.row.action? kind = some (.reduce production))
      (reducedEq : stack.reduce? production = some reduced) (rest : Reduces kind reduced last) :
      Reduces kind stack last

inductive Ends (token : Token) (last : Stack) : Fed → Prop
  | shifted {state : Nat} (action : last.row.action? token.kind = some (.shift state)) :
      Ends token last (.shifted (⟨state, .leaf token⟩ :: last))
  | accepted {program : Derivation} (isEnd : token.kind = .endOfInput)
      (found : last.program? = some program) : Ends token last (.accepted program)
  | refused : Ends token last (.refused last)

theorem reduces_feed (token : Token) (stack : Stack) :
    ∃ last, Reduces token.kind stack last ∧ Ends token last (stack.feed token) := by
  suffices within : ∀ bound (stack : Stack), ∃ last, Reduces token.kind stack last ∧
      Ends token last (feedWithin token bound stack) from within _ stack
  intro bound
  induction bound with
  | zero => exact fun stack => ⟨stack, .refl _, .refused⟩
  | succ bound ih =>
    intro stack
    rw [feedWithin_succ]
    split
    · exact ⟨stack, .refl _, .refused⟩
    · exact ⟨stack, .refl _, .shifted ‹_›⟩
    · rename_i production action
      split
      · exact ⟨stack, .refl _, .refused⟩
      · rename_i reduced reducedEq
        split
        · rename_i program found
          split at found
          · exact ⟨reduced, .step action reducedEq (.refl _), .accepted ‹_› found⟩
          · cases found
        · obtain ⟨last, reduces, ends⟩ := ih reduced
          exact ⟨last, .step action reducedEq reduces, ends⟩

theorem reduces_of_shifted {shifted : Stack} (fed : stack.feed token = .shifted shifted) :
    ∃ last state, Reduces token.kind stack last ∧
      last.row.action? token.kind = some (.shift state) ∧
      shifted = ⟨state, .leaf token⟩ :: last := by
  obtain ⟨last, reduces, ends⟩ := reduces_feed token stack
  rw [fed] at ends
  cases ends with
  | shifted action => exact ⟨last, _, reduces, action, rfl⟩

theorem reduces_of_refused {refused : Stack} (fed : stack.feed token = .refused refused) :
    Reduces token.kind stack refused := by
  obtain ⟨last, reduces, ends⟩ := reduces_feed token stack
  rw [fed] at ends
  cases ends with
  | refused => exact reduces

theorem reduces_of_accepted (fed : stack.feed token = .accepted program) :
    ∃ state, Reduces token.kind stack [⟨state, program⟩] ∧ token.kind = .endOfInput ∧
      program.symbol = .nonterminal .program := by
  obtain ⟨last, reduces, ends⟩ := reduces_feed token stack
  rw [fed] at ends
  cases ends with
  | accepted isEnd found =>
    obtain ⟨state, rfl, isProgram⟩ := of_program? found
    exact ⟨state, reduces, isEnd, isProgram⟩

def Sound (stack : Stack) : Prop :=
  ∀ frame ∈ stack, frame.tree.Sound

theorem Sound.cons (sound : stack.Sound) {tree : Derivation} (treeSound : tree.Sound)
    (state : Nat) : Sound (⟨state, tree⟩ :: stack) := by
  intro frame member
  rcases mem_cons.1 member with rfl | member
  · exact treeSound
  · exact sound frame member

theorem Sound.reduce {reduced : Stack} {production : Production} (sound : stack.Sound)
    (rule : production ∈ Grammar.rules) (reducedEq : stack.reduce? production = some reduced) :
    reduced.Sound := by
  obtain ⟨symbols, state, _, rfl⟩ := of_reduce? reducedEq
  have parts : Derivation.AllSound (stack.latest production.body.length) := by
    refine Derivation.allSound_iff.2 fun part member => ?_
    simp only [latest, mem_map, mem_reverse] at member
    obtain ⟨frame, frameMember, rfl⟩ := member
    exact sound frame (mem_of_mem_take frameMember)
  have branch : (Derivation.branch production (stack.latest production.body.length)).Sound :=
    ⟨rule, symbols, parts⟩
  have below : Sound (stack.drop production.body.length) :=
    fun frame member => sound frame (mem_of_mem_drop member)
  exact below.cons branch state

theorem Sound.reduces {last : Stack} (sound : stack.Sound) (reduces : Reduces kind stack last) :
    last.Sound := by
  induction reduces with
  | refl => exact sound
  | step action reducedEq _ ih =>
    exact ih (sound.reduce (Automaton.mem_rules_of_action? action) reducedEq)

theorem Sound.of_shifted {shifted : Stack} (sound : stack.Sound) (spelled : token.WellSpelled)
    (fed : stack.feed token = .shifted shifted) : shifted.Sound := by
  obtain ⟨last, state, reduces, _, rfl⟩ := reduces_of_shifted fed
  have leaf : (Derivation.leaf token).Sound := spelled
  exact (sound.reduces reduces).cons leaf state

theorem Sound.of_refused {refused : Stack} (sound : stack.Sound)
    (fed : stack.feed token = .refused refused) : refused.Sound :=
  sound.reduces (reduces_of_refused fed)

theorem Sound.of_accepted (sound : stack.Sound) (fed : stack.feed token = .accepted program) :
    program.Sound ∧ program.symbol = .nonterminal .program := by
  obtain ⟨state, reduces, _, isProgram⟩ := reduces_of_accepted fed
  exact ⟨sound.reduces reduces _ mem_cons_self, isProgram⟩

end Stack

namespace Reader

variable {reader : Reader}

def Sound (reader : Reader) : Prop :=
  reader.stack.Sound ∧ ∀ token, reader.held = some token → token.WellSpelled

def Supply.Sound : Supply → Prop
  | .token next reader => next.WellSpelled ∧ reader.Sound
  | .foreign next reader => next.WellSpelled ∧ reader.Sound
  | .stuck reader => reader.Sound
  | .finished reader => reader.Sound

theorem Sound.supply (sound : reader.Sound) : reader.supply.Sound := by
  have spelled {token given : Token} {behind : Cursor}
      (found : reader.vocabulary.next reader.cursor = .token token behind)
      (isReadAs : IsReadAs token given) : given.WellSpelled := by
    have own := Vocabulary.wellSpelled_of_next found
    rcases isReadAs with rfl | ⟨_, rfl⟩
    · exact own
    · -- An increment that starts a line has no fixed spelling left.
      exact ⟨.inl rfl, own.start, nofun⟩
  have supplies := reader.supplies_supply
  generalize reader.supply = supply at supplies ⊢
  cases supplies with
  | held waiting => exact ⟨sound.2 _ waiting, sound.1, nofun⟩
  | read _ found isReadAs => exact ⟨spelled found isReadAs, sound⟩
  | ended _ found isReadAs _ _ _ =>
    refine ⟨Token.wellSpelled_semicolonAt _, sound.1, ?_⟩
    rintro _ ⟨⟩
    exact spelled found isReadAs
  | foreign _ _ found => exact ⟨Vocabulary.wellSpelled_of_next found, sound⟩
  | stuck | finished => exact sound

theorem wellSpelled_semicolonBefore (reader : Reader) (token : Token) :
    (reader.semicolonBefore token).WellSpelled :=
  Token.wellSpelled_semicolonAt _

end Reader

end Namesake
