import Namesake.Proofs.Syntax.Derivation

/-!
`Reader.Moves` lists the moves of a reader with what is known when each of them is made.  A
property of readers is kept along a run if it is kept by every move.
-/

namespace Namesake

variable {token : Token}

-- The table of the automaton is a closed term; nothing below may evaluate it.
attribute [local irreducible] Automaton.rows

namespace Vocabulary

variable {vocabulary : Vocabulary}
variable {cursor place : Cursor}

theorem eq_of_next {behind : Cursor} (read : vocabulary.next cursor = .token token behind) :
    ∃ length, vocabulary.read? cursor.skipTrivia.rest = some (token.kind, length + 1) ∧
      token = tokenAt cursor.skipTrivia token.kind (length + 1) ∧
      behind = cursor.skipTrivia.advance (length + 1) := by
  have reads := vocabulary.reads_next cursor
  rw [read] at reads
  cases reads with
  | token _ found => exact ⟨_, found, rfl, rfl⟩

theorem eq_of_next_stuck (read : vocabulary.next cursor = .stuck place) :
    place = cursor.skipTrivia := by
  have reads := vocabulary.reads_next cursor
  rw [read] at reads
  cases reads
  rfl

theorem eq_of_next_finished (read : vocabulary.next cursor = .finished place) :
    place = cursor.skipTrivia ∧ place.rest = [] := by
  have reads := vocabulary.reads_next cursor
  rw [read] at reads
  cases reads with
  | finished atEnd => exact ⟨rfl, atEnd⟩

end Vocabulary

namespace Stack

theorem head?_of_shifted {stack shifted : Stack} (fed : stack.feed token = .shifted shifted) :
    ∃ state below, shifted = ⟨state, .leaf token⟩ :: below := by
  obtain ⟨last, state, _, _, rfl⟩ := reduces_of_shifted fed
  exact ⟨state, last, rfl⟩

theorem kind_of_accepted {stack : Stack} {program : Derivation}
    (fed : stack.feed token = .accepted program) : token.kind = .endOfInput := by
  obtain ⟨_, _, isEnd, _⟩ := reduces_of_accepted fed
  exact isEnd

end Stack

/-- Whether something unexpected is the end of the text, or a semicolon that was put in. -/
inductive Unexpected.IsEndOrInserted : Unexpected → Prop
  | ofEnd {token : Token} (isEnd : token.kind = .endOfInput) : IsEndOrInserted (.token token)
  | ofInserted (position : Position) : IsEndOrInserted (.token (Token.semicolonAt position))

namespace Reader

/-- Whether a reader comes to a token that may not follow, and whether a semicolon may follow in its
place. -/
inductive Halts (reader : Reader) : Token → Reader → Bool → Prop
  | refused {token : Token} {supplier : Reader} {stack : Stack}
      (supplied : reader.supply = .token token supplier)
      (fed : supplier.stack.feed token = .refused stack) :
      Halts reader token { supplier with stack, latest := some token } (endsStatement stack.row)
  | foreign {token : Token} {supplier : Reader}
      (supplied : reader.supply = .foreign token supplier) :
      Halts reader token supplier (supplier.vocabulary.tried.contains .semicolon &&
          !supplier.vocabulary.tried.contains .varWord)

/-- The reader that is left when the next token is taken. -/
def Supply.reader : Supply → Reader
  | .token _ reader | .foreign _ reader | .stuck reader | .finished reader => reader

/-- What a reader has left out: how much, and the notices of it. -/
def losses (reader : Reader) : Nat × List Notice :=
  (reader.dropped, reader.notices)

theorem losses_supply (reader : Reader) : reader.supply.reader.losses = reader.losses := by
  have supplies := reader.supplies_supply
  generalize reader.supply = supply at supplies ⊢
  cases supplies <;> rfl

theorem Halts.losses_eq {reader : Reader} {halted : Reader} {semicolonFits : Bool}
    (halts : reader.Halts token halted semicolonFits) : halted.losses = reader.losses := by
  rw [← losses_supply reader]
  cases halts with
  | refused supplied _ =>
    rw [supplied]
    rfl
  | foreign supplied =>
    rw [supplied]
    rfl

def without (reader : Reader) (token : Token) : Reader :=
  { reader with
    recent := some token
    latest := reader.lexed
    dropped := reader.dropped + 1
    notices := .droppedToken token :: reader.notices }

def withoutCharacter (reader : Reader) : Reader :=
  { reader with
    cursor := reader.cursor.advance 1
    latest := reader.lexed
    dropped := reader.dropped + 1
    notices := .skippedCharacter reader.cursor.position :: reader.notices }

inductive Moves (source : List Char) (tolerant : Bool) (reader : Reader) : Step → Prop
  | shifted {token : Token} {supplier : Reader} {stack : Stack}
      (supplied : reader.supply = .token token supplier)
      (fed : supplier.stack.feed token = .shifted stack) :
      Moves source tolerant reader (.go { supplier with stack, latest := some token })
  | inserted {token : Token} {halted : Reader} {between stack : Stack}
      (halts : reader.Halts token halted true)
      (mayInsert : halted.mayInsertBefore source token = true)
      (fed : halted.stack.feed (halted.semicolonBefore token) = .shifted between)
      (again : between.feed token = .shifted stack) :
      Moves source tolerant reader (.go { halted with
          stack, recent := some token, latest := halted.lexed, inserted := halted.inserted + 1 })
  | dropped {token : Token} {halted : Reader} {semicolonFits : Bool} (isTolerant : tolerant = true)
      (halts : reader.Halts token halted semicolonFits) :
      Moves source tolerant reader (.go (halted.without token))
  | insertedDropped {token : Token} {halted : Reader} {between stack : Stack}
      (isTolerant : tolerant = true) (halts : reader.Halts token halted true)
      (mayInsert : halted.mayInsertBefore source token = true)
      (fed : halted.stack.feed (halted.semicolonBefore token) = .shifted between)
      (again : between.feed token = .refused stack) :
      Moves source tolerant reader (.go
        (without { halted with stack, inserted := halted.inserted + 1 } token))
  | skipped {supplier : Reader} {char : Char} {rest : List Char} (isTolerant : tolerant = true)
      (supplied : reader.supply = .stuck supplier) (restEq : supplier.cursor.rest = char :: rest) :
      Moves source tolerant reader (.go supplier.withoutCharacter)
  | concluded {supplier : Reader}
      (supplied : reader.supply = .stuck supplier ∨ reader.supply = .finished supplier)
      (atEnd : supplier.cursor.rest = []) :
      Moves source tolerant reader (.done supplier.conclude)
  /-- Reading fails.  Unless it is strict, it is at the end of the text or a semicolon put in. -/
  | failed {failing : Reader} {unexpected : Unexpected} (same : failing.losses = reader.losses)
      (reason : tolerant = true → unexpected.IsEndOrInserted) :
      Moves source tolerant reader (failing.fail unexpected)

variable {source : List Char} {tolerant : Bool} {reader : Reader}

theorem Halts.moves {halted : Reader} {semicolonFits : Bool}
    (halts : reader.Halts token halted semicolonFits) :
    reader.Moves source tolerant (halted.recover source tolerant token semicolonFits) := by
  have same := halts.losses_eq
  unfold recover
  dsimp only
  split
  · rename_i fits
    obtain ⟨rfl, mayInsert⟩ := Bool.and_eq_true_iff.1 fits
    split
    · rename_i between fed
      split
      · rename_i stack again
        exact .inserted halts mayInsert fed again
      · rename_i stack again
        split
        · exact .insertedDropped ‹_› halts mayInsert fed again
        · rename_i strict
          exact .failed same fun isTolerant => absurd isTolerant strict
      · rename_i program again
        exact .failed same fun _ => .ofEnd (Stack.kind_of_accepted again)
    · exact .failed same fun _ => .ofInserted _
  · split
    · exact .dropped ‹_› halts
    · rename_i strict
      exact .failed same fun isTolerant => absurd isTolerant strict

theorem rest_of_supply_finished {supplier : Reader}
    (supplied : reader.supply = .finished supplier) :
    supplier.cursor.rest = [] := by
  have supplies := reader.supplies_supply
  rw [supplied] at supplies
  cases supplies with
  | finished _ found => exact (Vocabulary.eq_of_next_finished found).2

theorem moves_step (source : List Char) (tolerant : Bool) (reader : Reader) :
    reader.Moves source tolerant (reader.step source tolerant) := by
  have same := losses_supply reader
  unfold step
  split
  · rename_i token supplier supplied
    split
    · rename_i stack fed
      exact .shifted supplied fed
    · rename_i program fed
      rw [supplied] at same
      exact .failed same fun _ => .ofEnd (Stack.kind_of_accepted fed)
    · rename_i stack fed
      exact (Halts.refused supplied fed).moves
  · rename_i token supplier supplied
    exact (Halts.foreign supplied).moves
  · rename_i supplier supplied
    split
    · rename_i atEnd
      exact .concluded (.inl supplied) atEnd
    · rename_i char rest restEq
      dsimp only
      split
      · exact .skipped ‹_› supplied restEq
      · rename_i strict
        rw [supplied] at same
        exact .failed same fun isTolerant => absurd isTolerant strict
  · rename_i supplier supplied
    exact .concluded (.inr supplied) (rest_of_supply_finished supplied)

/-- The ways to come to a program at the end of the text. -/
inductive Concludes (reader : Reader) : Derivation → Prop
  | complete {program : Derivation}
      (fed : reader.stack.feed (Token.endAfter reader.latest) = .accepted program) :
      Concludes reader program
  | inserted {program : Derivation} {stack ended : Stack}
      (refused : reader.stack.feed (Token.endAfter reader.latest) = .refused stack)
      (ends : endsStatement stack.row = true)
      (fed : stack.feed (semicolonBefore { reader with stack } (Token.endAfter reader.latest)) =
        .shifted ended)
      (again : ended.feed (Token.endAfter reader.lexed) = .accepted program) :
      Concludes reader program

theorem conclude_eq (reader : Reader) :
    ∃ ending : Reader, ending.losses = reader.losses ∧
      ((∃ program, reader.conclude = ending.finish (.ok program) ∧ reader.Concludes program) ∨
        ∃ unexpected, reader.conclude = ending.finish (.error unexpected) ∧
          unexpected.IsEndOrInserted) := by
  unfold conclude
  dsimp only
  split
  · rename_i program fed
    exact ⟨reader, rfl, .inl ⟨program, rfl, .complete fed⟩⟩
  · exact ⟨reader, rfl, .inr ⟨_, rfl, .ofEnd rfl⟩⟩
  · rename_i stack refused
    split
    · rename_i ends
      split
      · rename_i ended fed
        split
        · rename_i program again
          exact ⟨{ reader with stack, inserted := reader.inserted + 1 }, rfl,
            .inl ⟨program, rfl, .inserted refused ends fed again⟩⟩
        · exact ⟨{ reader with stack, inserted := reader.inserted + 1 }, rfl,
            .inr ⟨_, rfl, .ofEnd rfl⟩⟩
      · exact ⟨{ reader with stack }, rfl, .inr ⟨_, rfl, .ofInserted _⟩⟩
    · exact ⟨{ reader with stack }, rfl, .inr ⟨_, rfl, .ofEnd rfl⟩⟩

theorem Moves.concludes_of_ok {outcome : Outcome} {program : Derivation}
    (moves : reader.Moves source tolerant (.done outcome)) (ok : outcome.result = .ok program) :
    ∃ supplier, (reader.supply = .stuck supplier ∨ reader.supply = .finished supplier) ∧
      supplier.Concludes program ∧ outcome.notices = supplier.notices.reverse ∧
      supplier.cursor.rest = [] := by
  generalize stepEq : Step.done outcome = step at moves
  cases moves with
  | @concluded supplier supplied atEnd =>
    cases stepEq
    obtain ⟨ending, same, ⟨found, concludeEq, concludes⟩ | ⟨_, concludeEq, _⟩⟩ :=
      conclude_eq supplier
    · rw [concludeEq] at ok ⊢
      cases ok
      exact ⟨supplier, supplied, concludes, congrArg List.reverse (Prod.mk.inj same).2, atEnd⟩
    · rw [concludeEq] at ok
      cases ok
  | failed =>
    cases stepEq
    cases ok
  | _ => cases stepEq

theorem run_of_done {outcome : Outcome} (stepped : reader.step source tolerant = .done outcome) :
    reader.run source tolerant = outcome := by
  rw [Reader.run]
  split
  · rename_i other steppedTo
    cases stepped.symm.trans steppedTo
    rfl
  · rename_i next steppedTo
    cases stepped.symm.trans steppedTo

theorem run_of_go {next : Reader} (stepped : reader.step source tolerant = .go next) :
    reader.run source tolerant = next.run source tolerant := by
  rw [Reader.run]
  split
  · rename_i outcome steppedTo
    cases stepped.symm.trans steppedTo
  · rename_i other steppedTo
    cases stepped.symm.trans steppedTo
    rfl

theorem Moves.of_step {step : Step} (stepped : reader.step source tolerant = step) :
    reader.Moves source tolerant step :=
  stepped ▸ moves_step source tolerant reader

/-- What every step keeps holds along a run, and what the last step then gives holds of its
outcome. -/
theorem run_induction (invariant : Reader → Prop) (result : Outcome → Prop)
    (kept : ∀ {reader next : Reader}, invariant reader → reader.step source tolerant = .go next →
      invariant next)
    (ended : ∀ {reader : Reader} {outcome : Outcome}, invariant reader →
      reader.step source tolerant = .done outcome → result outcome)
    {reader : Reader} (start : invariant reader) : result (reader.run source tolerant) := by
  fun_induction Reader.run source tolerant reader with
  | case1 reader outcome stepped => exact ended start stepped
  | case2 reader next stepped ih => exact ih (kept start stepped)

section Sound

variable {halted next : Reader} {semicolonFits : Bool}

theorem Halts.wellSpelled (halts : reader.Halts token halted semicolonFits) (sound : reader.Sound) :
    token.WellSpelled := by
  have supply := sound.supply
  cases halts with
  | refused supplied | foreign supplied =>
    rw [supplied] at supply
    exact supply.1

theorem Halts.sound (halts : reader.Halts token halted semicolonFits) (sound : reader.Sound) :
    halted.Sound := by
  have supply := sound.supply
  cases halts with
  | refused supplied fed =>
    rw [supplied] at supply
    exact ⟨supply.2.1.of_refused fed, supply.2.2⟩
  | foreign supplied =>
    rw [supplied] at supply
    exact supply.2

theorem Moves.sound (moves : reader.Moves source tolerant (.go next)) (sound : reader.Sound) :
    next.Sound := by
  have supply := sound.supply
  have insert {token : Token} {halted : Reader} {between : Stack}
      (halts : reader.Halts token halted true)
      (fed : halted.stack.feed (halted.semicolonBefore token) = .shifted between) : between.Sound :=
    (halts.sound sound).1.of_shifted (wellSpelled_semicolonBefore _ _) fed
  cases moves with
  | shifted supplied fed =>
    rw [supplied] at supply
    exact ⟨supply.2.1.of_shifted supply.1 fed, supply.2.2⟩
  | inserted halts _ fed again =>
    exact ⟨(insert halts fed).of_shifted (halts.wellSpelled sound) again, (halts.sound sound).2⟩
  | dropped _ halts => exact halts.sound sound
  | insertedDropped _ halts _ fed again =>
    exact ⟨(insert halts fed).of_refused again, (halts.sound sound).2⟩
  | skipped _ supplied _ =>
    rw [supplied] at supply
    exact supply

theorem Sound.ending {supplier : Reader} (sound : reader.Sound)
    (supplied : reader.supply = .stuck supplier ∨ reader.supply = .finished supplier) :
    supplier.Sound := by
  have supply := sound.supply
  rcases supplied with supplied | supplied
  · rw [supplied] at supply
    exact supply
  · rw [supplied] at supply
    exact supply

theorem Concludes.sound {program : Derivation} (concludes : reader.Concludes program)
    (sound : reader.Sound) : program.Sound ∧ program.symbol = .nonterminal .program := by
  cases concludes with
  | complete fed => exact sound.1.of_accepted fed
  | inserted refused _ fed again =>
    have before := sound.1.of_refused refused
    exact (before.of_shifted (wellSpelled_semicolonBefore _ _) fed).of_accepted again

theorem sound_ofSource (source : String) : (ofSource source).Sound := by
  refine ⟨fun frame member => ?_, ?_⟩
  · cases member
  · rintro _ ⟨⟩

end Sound

end Reader

theorem Derivation.sound_read (source : String) (tolerant : Bool) (program : Derivation)
    (read : (read source tolerant).result = .ok program) :
    program.Sound ∧ program.symbol = .nonterminal .program := by
  refine Reader.run_induction Reader.Sound (fun outcome => ∀ program, outcome.result = .ok program →
    program.Sound ∧ program.symbol = .nonterminal .program) ?_ ?_ (Reader.sound_ofSource source)
    program read
  · intro reader next sound stepped
    exact (Reader.Moves.of_step stepped).sound sound
  · intro reader outcome sound stepped program ok
    obtain ⟨supplier, supplied, concludes, _⟩ := (Reader.Moves.of_step stepped).concludes_of_ok ok
    exact concludes.sound (sound.ending supplied)

end Namesake
