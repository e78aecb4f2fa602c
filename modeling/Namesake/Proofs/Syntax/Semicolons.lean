import Namesake.Proofs.Syntax.Alignment
import Namesake.Proofs.Syntax.Forms

/-!
A semicolon that is put in stands behind every token before it, except that it may stand before
the closing parentheses of the latest phrase.
-/

namespace Namesake

open List

variable {derivation : Derivation} {tokens : List Token}

/-- Whether each token starts where those before it have ended, except that a closing parenthesis
may end behind a semicolon that was put in. -/
def Token.Orderly (tokens : List Token) : Prop :=
  tokens.Pairwise fun left right => (right.isInserted = true → left.kind ≠ .rightParen) →
    left.extent.last.offset ≤ right.extent.first.offset

/-- Whether a production that only passes a phrase on has nothing but that phrase, or the phrase
between parentheses, and whether that phrase must have tokens. -/
def Production.isWrapper (production : Production) : Bool :=
  production.form ≠ .inner || match production.body with
    | [.nonterminal inner]
    | [.terminal .leftParen, .nonterminal inner, .terminal .rightParen] =>
      !Symbol.isNullable (.nonterminal inner)
    | _ => false

theorem Grammar.isWrapper_of_mem_rules : ∀ production ∈ rules, production.isWrapper = true := by
  decide +kernel

namespace Derivation

theorem eq_branch_of_symbol {phrase : Nonterminal}
    (symbolEq : derivation.symbol = .nonterminal phrase) :
    ∃ production parts, derivation = branch production parts := by
  cases derivation with
  | leaf token => cases symbolEq
  | branch production parts => exact ⟨production, parts, rfl⟩

theorem eq_leaf_of_symbol {kind : Terminal} (symbolEq : derivation.symbol = .terminal kind) :
    ∃ token, derivation = leaf token ∧ token.kind = kind := by
  cases derivation with
  | leaf token =>
    cases symbolEq
    exact ⟨token, rfl, rfl⟩
  | branch production parts => cases symbolEq

/-- Whether a phrase is another one between parentheses. -/
def Wraps (phrase part : Derivation) : Prop :=
  ∃ production left right, production.form = .inner ∧ left.kind = .leftParen ∧
    right.kind = .rightParen ∧ phrase = branch production [leaf left, part, leaf right]

theorem Sound.cases_of_inner {production : Production} {parts : List Derivation}
    (sound : (branch production parts).Sound) (isInner : production.form = .inner) :
    ∃ part : Derivation, part ∈ parts ∧ part.Sound ∧ part.symbol.isNullable = false ∧
      (branch production parts).extent = part.extent ∧
      (parts = [part] ∨ (branch production parts).Wraps part) := by
  obtain ⟨rule, symbols, allSound⟩ := sound
  have wrapper := Grammar.isWrapper_of_mem_rules production rule
  unfold Production.isWrapper at wrapper
  rw [isInner] at wrapper
  simp only [ne_eq, not_true_eq_false, decide_false, Bool.false_or] at wrapper
  split at wrapper
  · rename_i inner bodyEq
    rw [bodyEq] at symbols
    obtain ⟨part, rfl, symbolEq⟩ := map_eq_singleton_iff.1 symbols
    obtain ⟨own, parts, rfl⟩ := eq_branch_of_symbol symbolEq
    refine ⟨_, mem_singleton_self _, allSound.1, ?_, ?_, .inl rfl⟩
    · rw [symbolEq]
      simpa using wrapper
    · rw [extent, if_pos isInner, innerExtent]
  · rename_i inner bodyEq
    rw [bodyEq] at symbols
    obtain ⟨first, rest, rfl, firstEq, restEq⟩ := map_eq_cons_iff.1 symbols
    obtain ⟨part, rest, rfl, partEq, restEq⟩ := map_eq_cons_iff.1 restEq
    obtain ⟨last, rfl, lastEq⟩ := map_eq_singleton_iff.1 restEq
    obtain ⟨left, rfl, leftEq⟩ := eq_leaf_of_symbol firstEq
    obtain ⟨own, parts, rfl⟩ := eq_branch_of_symbol partEq
    obtain ⟨right, rfl, rightEq⟩ := eq_leaf_of_symbol lastEq
    refine ⟨_, by simp, allSound.2.1, ?_, ?_,
      .inr ⟨production, left, right, isInner, leftEq, rightEq, rfl⟩⟩
    · rw [partEq]
      simpa using wrapper
    · rw [extent, if_pos isInner, innerExtent, innerExtent]
  · cases wrapper

theorem Sound.exists_extent {derivation : Derivation} (sound : derivation.Sound)
    (full : derivation.symbol.isNullable = false) : ∃ extent, derivation.extent = some extent := by
  induction derivation using ofParts with
  | leaf token => exact ⟨_, rfl⟩
  | branch production parts ih =>
    by_cases isInner : production.form = .inner
    · obtain ⟨part, member, partSound, partFull, extentEq, _⟩ := sound.cases_of_inner isInner
      rw [extentEq]
      exact ih part member partSound partFull
    · rw [extent, if_neg isInner, coverAll_eq_span]
      exact Token.exists_span (sound.tokens_ne_nil full)

end Derivation

/-- Whether the last of some tokens ends at a place, or the last before closing parentheses. -/
def Token.EndAt (tokens : List Token) (place : Position) : Prop :=
  ∃ front final closers, tokens = front ++ final :: closers ∧
    (∀ closer ∈ closers, closer.kind = .rightParen) ∧ final.extent.last = place

theorem Token.EndAt.append {place : Position} (ends : EndAt tokens place) (before : List Token) :
    EndAt (before ++ tokens) place := by
  obtain ⟨front, final, closers, tokensEq, rest⟩ := ends
  exact ⟨before ++ front, final, closers, by rw [tokensEq, append_assoc], rest⟩

theorem Token.EndAt.le {place : Position} (ends : EndAt tokens place) (orderly : Orderly tokens)
    (wide : ∀ token ∈ tokens, token.extent.first.offset ≤ token.extent.last.offset)
    {token : Token} (member : token ∈ tokens) (other : token.kind ≠ .rightParen) :
    token.extent.last.offset ≤ place.offset := by
  obtain ⟨front, final, closers, rfl, closing, rfl⟩ := ends
  rw [mem_append, mem_cons] at member
  rcases member with inFront | rfl | inClosers
  · exact Int.le_trans ((pairwise_append.1 orderly).2.2 token inFront final (by simp)
      fun _ => other) (wide final (by simp))
  · exact Int.le_refl _
  · exact absurd (closing token inClosers) other

theorem Token.last_of_span {token : Token} {extent : Extent}
    (spanned : Token.span (tokens ++ [token]) = some extent) : extent.last = token.extent.last := by
  rw [span_append] at spanned
  cases frontEq : Token.span tokens <;> rw [frontEq] at spanned <;> cases spanned <;> rfl

theorem Token.endAt_of_span {extent : Extent} (spanned : Token.span tokens = some extent) :
    EndAt tokens extent.last := by
  obtain rfl | ⟨front, final, rfl⟩ := eq_nil_or_concat tokens
  · cases spanned
  · rw [concat_eq_append] at spanned ⊢
    exact ⟨front, final, [], rfl, by simp, (last_of_span spanned).symm⟩

theorem Derivation.Sound.endAt {derivation : Derivation} (sound : derivation.Sound)
    {extent : Extent} (extentEq : derivation.extent = some extent) :
    Token.EndAt derivation.tokens extent.last := by
  induction derivation using ofParts with
  | leaf own => exact Token.endAt_of_span extentEq
  | branch production parts ih =>
    by_cases isInner : production.form = .inner
    · obtain ⟨part, member, partSound, _, sameExtent, only | wraps⟩ := sound.cases_of_inner isInner
      all_goals
        rw [sameExtent] at extentEq
        have ends := ih part member partSound extentEq
      · simpa only [only, tokens, tokensAll, append_nil] using ends
      · obtain ⟨front, final, closers, tokensEq, closing, lastEq⟩ := ends
        obtain ⟨_, left, right, _, _, rightKind, phraseEq⟩ := wraps
        refine ⟨left :: front, final, closers ++ [right], ?_, ?_, lastEq⟩
        · rw [phraseEq]
          simp [tokens, tokensAll, tokensEq]
        · simpa [or_imp, forall_and, rightKind] using closing
    · rw [Derivation.extent, if_neg isInner, coverAll_eq_span] at extentEq
      exact Token.endAt_of_span extentEq

theorem Reader.endAt_of_previousEnd? {reader : Reader} (sound : reader.stack.Sound)
    {place : Position} (found : reader.previousEnd? = some place) :
    Token.EndAt reader.stack.tokens place := by
  obtain ⟨frame, frameEq, mapped⟩ := Option.bind_eq_some_iff.1 found
  obtain ⟨extent, extentEq, rfl⟩ := Option.map_eq_some_iff.1 mapped
  obtain ⟨below, stackEq⟩ := List.head?_eq_some_iff.1 frameEq
  rw [stackEq] at sound ⊢
  rw [Stack.tokens_cons]
  exact ((sound frame mem_cons_self).endAt extentEq).append _

namespace Automaton

/-- Whether no semicolon may follow in a state, or none that could end a block or the text. -/
def endsNothing (state : Nat) : Bool :=
  match action? state .semicolon with
  | none => true
  | some (.shift next) => (action? next .endOfInput).isNone && (action? next .rightBrace).isNone
  | some (.reduce _) => false

theorem endsNothing_of_nullable {state : Nat} {entry : State} (found : states[state]? = some entry)
    (nullable : entry.symbol.isNullable = true) : endsNothing state = true := by
  have table : (states.zipIdx.all fun entry =>
      !entry.1.symbol.isNullable || endsNothing entry.2) = true := by
    decide +kernel
  simpa [nullable] using
    of_states (fun entry state => !entry.symbol.isNullable || endsNothing state) table found

end Automaton

-- The table of the automaton is a closed term; nothing below may evaluate it.
attribute [local irreducible] Automaton.rows Automaton.states

namespace Stack

variable {stack : Stack} {token : Token}

theorem feed_of_none (action : Automaton.action? stack.state token.kind = none) :
    stack.feed token = .refused stack := by
  have found : stack.row.action? token.kind = none := (Automaton.action?_row _ _).trans action
  have fuel : 32 * (stack.length + 2) = (32 * stack.length + 63) + 1 := by omega
  rw [feed, fuel, feedWithin_succ, found]

theorem feed_of_shift {next : Nat}
    (action : Automaton.action? stack.state token.kind = some (.shift next)) :
    stack.feed token = .shifted (⟨next, .leaf token⟩ :: stack) := by
  have found : stack.row.action? token.kind = some (.shift next) :=
    (Automaton.action?_row _ _).trans action
  have fuel : 32 * (stack.length + 2) = (32 * stack.length + 63) + 1 := by omega
  rw [feed, fuel, feedWithin_succ, found]

/-- Behind an empty phrase a semicolon ends no statement. -/
theorem Aligned.refused_of_nullable {frame : Frame} {below ended : Stack} {last : Token}
    (aligned : Aligned (frame :: below)) (nullable : frame.tree.symbol.isNullable = true)
    (isSemicolon : token.kind = .semicolon) (fed : feed (frame :: below) token = .shifted ended)
    (isEnd : last.kind = .endOfInput ∨ last.kind = .rightBrace) :
    ended.feed last = .refused ended := by
  obtain ⟨entry, found, symbolEq⟩ := aligned frame mem_cons_self
  have nothing := Automaton.endsNothing_of_nullable found (symbolEq ▸ nullable)
  unfold Automaton.endsNothing at nothing
  rw [← isSemicolon] at nothing
  split at nothing
  · rename_i action
    cases fed.symm.trans (feed_of_none action)
  · rename_i next action
    cases fed.symm.trans (feed_of_shift action)
    have none : Automaton.action? next last.kind = none := by
      rw [Bool.and_eq_true, Option.isNone_iff_eq_none, Option.isNone_iff_eq_none] at nothing
      rcases isEnd with isEnd | isEnd
      · rw [isEnd, nothing.1]
      · rw [isEnd, nothing.2]
    exact feed_of_none none
  · cases nothing

end Stack

namespace Reader

variable {reader : Reader} {token last : Token} {ended : Stack}

theorem endAt_semicolonBefore (sound : reader.stack.Sound) (aligned : reader.stack.Aligned)
    (nonempty : reader.stack.tokens ≠ [])
    (isEnd : reader.previousEnd? = none → last.kind = .endOfInput ∨ last.kind = .rightBrace)
    (fed : reader.stack.feed (reader.semicolonBefore token) = .shifted ended)
    (taken : ended.feed last ≠ .refused ended) :
    Token.EndAt reader.stack.tokens (reader.semicolonBefore token).extent.last := by
  cases found : reader.previousEnd? with
  | some place =>
    rw [semicolonBefore, found]
    exact endAt_of_previousEnd? sound found
  | none =>
    cases stackEq : reader.stack with
    | nil =>
      rw [stackEq] at nonempty
      exact absurd rfl nonempty
    | cons frame below =>
      -- The latest phrase is empty, so that the semicolon could not have been kept.
      have noExtent := found
      rw [previousEnd?, stackEq] at noExtent
      rw [stackEq] at sound aligned fed
      cases nullable : frame.tree.symbol.isNullable with
      | true => exact absurd (aligned.refused_of_nullable nullable rfl fed (isEnd found)) taken
      | false =>
        obtain ⟨extent, extentEq⟩ := (sound frame mem_cons_self).exists_extent nullable
        cases (Option.map_eq_none_iff.1 noExtent).symm.trans extentEq

end Reader

theorem Token.Orderly.append_singleton (orderly : Token.Orderly tokens) {token : Token}
    (behind : ∀ other ∈ tokens, (token.isInserted = true → other.kind ≠ .rightParen) →
      other.extent.last.offset ≤ token.extent.first.offset) :
    Token.Orderly (tokens ++ [token]) := by
  refine pairwise_append.2 ⟨orderly, pairwise_singleton _ _, ?_⟩
  intro other member last isLast
  rw [mem_singleton.1 isLast]
  exact behind other member

theorem Token.Orderly.push (orderly : Token.Orderly tokens) {token : Token}
    (settled : ∀ other ∈ tokens, other.extent.last.offset ≤ token.extent.first.offset)
    (wide : token.extent.first.offset ≤ token.extent.last.offset) :
    Token.Orderly (tokens ++ [token]) ∧
      ∀ other ∈ tokens ++ [token], other.extent.last.offset ≤ token.extent.last.offset := by
  refine ⟨orderly.append_singleton fun other member _ => settled other member, ?_⟩
  intro other member
  rcases mem_append.1 member with earlier | isNew
  · exact Int.le_trans (settled other earlier) wide
  · obtain rfl := mem_singleton.1 isNew
    exact Int.le_refl _

namespace Reader

/-- Whether the tokens on the stack are in order, with the token that the reader remembers behind
them. -/
structure Tidy (reader : Reader) : Prop where
  orderly : Token.Orderly reader.stack.tokens
  recent : ∀ last, reader.recent = some last → ∀ token ∈ reader.stack.tokens,
    token.extent.last.offset ≤ last.extent.last.offset
  held : ∀ token, reader.held = some token → token.isInserted = false

/-- Whether the tokens on the stack are in order, with a token in hand behind them. -/
structure Ready (token : Token) (reader : Reader) : Prop where
  orderly : Token.Orderly reader.stack.tokens
  settled : ∀ other ∈ reader.stack.tokens, other.extent.last.offset ≤ token.extent.first.offset
  held : ∀ token, reader.held = some token → token.isInserted = false

/-- Whether the reader is tidy, or ready for the token that it takes next. -/
def Supply.Tidy : Supply → Prop
  | .token given reader => reader.Ready given ∧
      ∀ last, reader.recent = some last → given.extent.last.offset ≤ last.extent.last.offset
  | .foreign given reader => reader.Ready given
  | .stuck reader | .finished reader => reader.Tidy

variable {source : List Char} {tolerant : Bool} {seen : List Token} {reader next : Reader}
  {token : Token}

theorem Tidy.supply (tidy : reader.Tidy) (accounts : reader.Accounts source seen []) :
    reader.supply.Tidy := by
  have account := accounts.account
  have early (other : Token) (member : other ∈ reader.stack.tokens) :
      other.extent.last.offset ≤ reader.cursor.position.offset :=
    account.before other (by simp [member])
  have supplies := reader.supplies_supply
  generalize reader.supply = supply at supplies ⊢
  cases supplies with
  | held waiting =>
    rw [waiting] at account
    refine ⟨⟨tidy.orderly, fun other member => ?_, by simp⟩, ?_⟩
    · exact account.le_of_mem member (by simp) (tidy.held _ waiting)
    · rintro _ ⟨⟩
      exact Int.le_refl _
  | read _ found isReadAs =>
    obtain ⟨_, _, first, _⟩ := Vocabulary.isPiece_of_next accounts.isAt found
    refine ⟨⟨tidy.orderly, fun other member => ?_, tidy.held⟩, ?_⟩
    · rw [isReadAs.extent_eq]
      exact Int.le_trans (early other member) first
    · rintro _ ⟨⟩
      exact Int.le_refl _
  | ended _ found isReadAs recent =>
    obtain ⟨piece, _⟩ := Vocabulary.isPiece_of_next accounts.isAt found
    -- The semicolon stands at the end of the token that the reader remembers.
    refine ⟨⟨tidy.orderly, tidy.recent _ recent, ?_⟩, ?_⟩
    · rintro _ ⟨⟩
      rw [Token.isInserted, isReadAs.extent_eq]
      exact piece.not_isInserted
    · intro other otherEq
      cases recent.symm.trans otherEq
      exact Int.le_refl _
  | foreign _ stuck found =>
    obtain ⟨placeAt, le⟩ := Vocabulary.isAt_of_next_stuck accounts.isAt stuck
    obtain ⟨_, _, first, _⟩ := Vocabulary.isPiece_of_next placeAt found
    refine ⟨tidy.orderly, fun other member => ?_, tidy.held⟩
    exact Int.le_trans (early other member) (Int.le_trans le first)
  | stuck | finished => exact ⟨tidy.orderly, tidy.recent, tidy.held⟩

theorem Halts.ready {halted : Reader} {semicolonFits : Bool}
    (halts : reader.Halts token halted semicolonFits) (tidy : reader.Tidy)
    (accounts : reader.Accounts source seen []) : halted.Ready token := by
  have supply := tidy.supply accounts
  cases halts with
  | refused supplied fed =>
    rw [supplied] at supply
    obtain ⟨⟨orderly, settled, held⟩, _⟩ := supply
    rw [← Stack.tokens_of_refused fed] at orderly settled
    exact ⟨orderly, settled, held⟩
  | foreign supplied =>
    rw [supplied] at supply
    exact supply

theorem Ready.insert (ready : reader.Ready token) (sound : reader.stack.Sound)
    (wide : ∀ token ∈ reader.stack.tokens, token.extent.first.offset ≤ token.extent.last.offset) :
    Token.Orderly (reader.stack.tokens ++ [reader.semicolonBefore token]) ∧
      ∀ other ∈ reader.stack.tokens ++ [reader.semicolonBefore token],
        other.extent.last.offset ≤ token.extent.first.offset := by
  have inserted := Token.isInserted_semicolonAt (reader.previousEnd?.getD token.extent.first)
  suffices placed : (∀ other ∈ reader.stack.tokens, other.kind ≠ .rightParen →
      other.extent.last.offset ≤ (reader.previousEnd?.getD token.extent.first).offset) ∧
      (reader.previousEnd?.getD token.extent.first).offset ≤ token.extent.first.offset by
    refine ⟨ready.orderly.append_singleton fun other member plain => ?_, fun other member => ?_⟩
    · exact placed.1 other member (plain inserted)
    · rcases mem_append.1 member with onStack | isNew
      · exact ready.settled other onStack
      · rw [mem_singleton.1 isNew]
        exact placed.2
  cases found : reader.previousEnd? with
  | none => exact ⟨fun other member _ => ready.settled other member, Int.le_refl _⟩
  | some position =>
    refine ⟨fun other member plain => ?_, ?_⟩
    · exact (endAt_of_previousEnd? sound found).le ready.orderly wide member plain
    · obtain ⟨last, lastMember, rfl⟩ := exists_of_previousEnd? found
      exact ready.settled last lastMember

theorem Accounts.le_of_mem {hand : List Token} (accounts : reader.Accounts source seen hand)
    (token : Token) (member : token ∈ reader.stack.tokens) :
    token.extent.first.offset ≤ token.extent.last.offset :=
  (accounts.account.isOf token (mem_append_left _ member)).le

theorem Moves.tidy (moves : reader.Moves source tolerant (.go next)) (tidy : reader.Tidy)
    (accounts : reader.Accounts source seen []) (sound : reader.Sound) : next.Tidy := by
  have supply := tidy.supply accounts
  have supplyAccounts := accounts.supply
  -- A token at which the reader halts may be put on the stack or left out.
  have wide {token : Token} {halted : Reader} {semicolonFits : Bool}
      (halts : reader.Halts token halted semicolonFits) :
      token.extent.first.offset ≤ token.extent.last.offset :=
    ((halts.accounts accounts).account.isOf token (by simp)).le
  have insert {token : Token} {halted : Reader} (halts : reader.Halts token halted true) :=
    (halts.ready tidy accounts).insert (halts.sound sound).1 (halts.accounts accounts).le_of_mem
  cases moves with
  | @shifted token supplier stack supplied fed =>
    rw [supplied] at supply supplyAccounts
    obtain ⟨⟨orderly, settled, held⟩, behind⟩ := supply
    have pushed := orderly.push settled (supplyAccounts.account.isOf token (by simp)).le
    rw [← Stack.tokens_of_shifted fed] at pushed
    refine ⟨pushed.1, fun last lastEq other member => ?_, held⟩
    exact Int.le_trans (pushed.2 other member) (behind last lastEq)
  | inserted halts _ fed again =>
    obtain ⟨orderly, settled⟩ := insert halts
    have pushed := orderly.push settled (wide halts)
    rw [← Stack.tokens_of_shifted fed, ← Stack.tokens_of_shifted again] at pushed
    refine ⟨pushed.1, ?_, (halts.ready tidy accounts).held⟩
    rintro _ ⟨⟩
    exact pushed.2
  | dropped _ halts =>
    have ready := halts.ready tidy accounts
    refine ⟨ready.orderly, ?_, ready.held⟩
    rintro _ ⟨⟩ other member
    exact Int.le_trans (ready.settled other member) (wide halts)
  | insertedDropped _ halts _ fed again =>
    obtain ⟨orderly, settled⟩ := insert halts
    rw [← Stack.tokens_of_shifted fed, ← Stack.tokens_of_refused again] at orderly settled
    refine ⟨orderly, ?_, (halts.ready tidy accounts).held⟩
    rintro _ ⟨⟩ other member
    exact Int.le_trans (settled other member) (wide halts)
  | skipped _ supplied _ =>
    rw [supplied] at supply
    exact ⟨supply.orderly, supply.recent, supply.held⟩

theorem Concludes.orderly {program : Derivation} (concludes : reader.Concludes program)
    (tidy : reader.Tidy) (accounts : reader.Accounts source seen []) (sound : reader.Sound)
    (aligned : reader.stack.Aligned) : Token.Orderly program.tokens := by
  cases concludes with
  | complete fed =>
    rw [Stack.tokens_of_accepted fed]
    exact tidy.orderly
  | @inserted stack ended refused ends fed again =>
    have wide := accounts.le_of_mem
    have orderly := tidy.orderly
    rw [← Stack.tokens_of_refused refused] at orderly wide
    rw [Stack.tokens_of_accepted again, Stack.tokens_of_shifted fed]
    refine orderly.append_singleton fun other member plain => ?_
    have endAt := endAt_semicolonBefore (sound.1.of_refused refused) (aligned.of_refused refused)
      (ne_nil_of_mem member) (fun _ => .inl rfl) fed (by rw [again]; nofun)
    exact endAt.le orderly wide member (plain (Token.isInserted_semicolonAt _))

theorem tidy_ofSource (source : String) : (ofSource source).Tidy := by
  refine ⟨.nil, ?_, ?_⟩
  · rintro _ ⟨⟩
  · rintro _ ⟨⟩

end Reader

theorem Derivation.orderly_read {source : String} {tolerant : Bool}
    (read : (Derivation.read source tolerant).result = .ok derivation) :
    Token.Orderly derivation.tokens := by
  refine Reader.run_induction (fun reader => reader.Regular source.toList ∧ reader.Tidy)
    (fun outcome => ∀ program, outcome.result = .ok program → Token.Orderly program.tokens)
    ?_ ?_ ⟨Reader.regular_ofSource source, Reader.tidy_ofSource source⟩ derivation read
  · rintro reader next ⟨regular, tidy⟩ stepped
    obtain ⟨seen, accounts⟩ := regular.accounts
    exact ⟨regular.step stepped, (Reader.Moves.of_step stepped).tidy tidy accounts regular.sound⟩
  · rintro reader outcome ⟨regular, tidy⟩ stepped program ok
    obtain ⟨supplier, supplied, concludes, _⟩ := (Reader.Moves.of_step stepped).concludes_of_ok ok
    obtain ⟨seen, accounts⟩ := regular.accounts
    have supply := tidy.supply accounts
    have ending := regular.ending supplied
    obtain ⟨_, endingAccounts⟩ := ending.accounts
    refine concludes.orderly ?_ endingAccounts ending.sound ending.aligned
    rcases supplied with supplied | supplied
    · rw [supplied] at supply
      exact supply
    · rw [supplied] at supply
      exact supply

end Namesake
