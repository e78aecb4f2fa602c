import Namesake.Proofs.Syntax.Moves
import Namesake.SourceFile

/-!
A tolerant reader does what a strict one does, until it leaves something out; there the strict
one fails.
-/

namespace Namesake

-- The table of the automaton is a closed term; nothing below may evaluate it.
attribute [local irreducible] Automaton.rows

namespace Reader

variable {source : List Char} {tolerant : Bool} {reader : Reader} {step : Step}

def Step.losses : Step → Nat × List Notice
  | .go reader => reader.losses
  | .done outcome => (outcome.dropped, outcome.notices.reverse)

theorem losses_finish (reader : Reader) (result : Except Unexpected Derivation) :
    (Step.done (reader.finish result)).losses = reader.losses :=
  Prod.ext rfl (List.reverse_reverse _)

theorem losses_conclude (reader : Reader) :
    (Step.done reader.conclude).losses = reader.losses := by
  obtain ⟨ending, same, ⟨_, concludeEq, _⟩ | ⟨_, concludeEq, _⟩⟩ := conclude_eq reader <;>
    rw [concludeEq, losses_finish, same]

theorem Moves.losses_eq (moves : reader.Moves source tolerant step) :
    step.losses = reader.losses ∨
      tolerant = true ∧ ∃ notice, step.losses = (reader.dropped + 1, notice :: reader.notices) := by
  have leaveOut {other next : Reader} (same : other.losses = reader.losses) {notice : Notice}
      (nextEq : next.losses = (other.dropped + 1, notice :: other.notices)) :
      ∃ notice, next.losses = (reader.dropped + 1, notice :: reader.notices) := by
    obtain ⟨droppedEq, noticesEq⟩ := Prod.mk.inj same
    exact ⟨notice, by rw [nextEq, droppedEq, noticesEq]⟩
  have supply := losses_supply reader
  cases moves with
  | shifted supplied _ =>
    rw [supplied] at supply
    exact .inl supply
  | inserted halts _ _ _ => exact .inl halts.losses_eq
  | dropped isTolerant halts | insertedDropped isTolerant halts =>
    exact .inr ⟨isTolerant, leaveOut halts.losses_eq rfl⟩
  | skipped isTolerant supplied _ =>
    rw [supplied] at supply
    exact .inr ⟨isTolerant, leaveOut supply rfl⟩
  | concluded supplied _ =>
    refine .inl ((losses_conclude _).trans ?_)
    rcases supplied with supplied | supplied
    · rw [supplied] at supply
      exact supply
    · rw [supplied] at supply
      exact supply
  | failed same _ => exact .inl ((losses_finish _ _).trans same)

theorem Moves.dropped_le (moves : reader.Moves source tolerant step) :
    reader.dropped ≤ step.losses.1 := by
  rcases moves.losses_eq with same | ⟨_, notice, more⟩
  · rw [same]
    exact Nat.le_refl _
  · rw [more]
    exact Nat.le_succ _

theorem dropped_le_run (source : List Char) (tolerant : Bool) (reader : Reader) :
    reader.dropped ≤ (reader.run source tolerant).dropped := by
  refine run_induction (fun next => reader.dropped ≤ next.dropped)
    (fun outcome => reader.dropped ≤ outcome.dropped) ?_ ?_ (Nat.le_refl _)
  · intro current next below stepped
    exact Nat.le_trans below (Moves.of_step stepped).dropped_le
  · intro current outcome below stepped
    exact Nat.le_trans below (Moves.of_step stepped).dropped_le

/-- Whether a strict reader does the same as a tolerant one, or fails where the tolerant one leaves
something out. -/
inductive Step.Splits (dropped : Nat) : Step → Step → Prop
  | same (step : Step) : Splits dropped step step
  | fails {failing next : Reader} {unexpected : Unexpected} (less : dropped < next.dropped) :
      Splits dropped (failing.fail unexpected) (.go next)

theorem splits_recover (source : List Char) (reader : Reader) (token : Token)
    (semicolonFits : Bool) :
    Step.Splits reader.dropped (reader.recover source false token semicolonFits)
      (reader.recover source true token semicolonFits) := by
  have less := Nat.lt_succ_self reader.dropped
  unfold recover
  dsimp only
  split
  · split
    · split
      · exact .same _
      · exact .fails less
      · exact .same _
    · exact .same _
  · exact .fails less

theorem splits_step (source : List Char) (reader : Reader) :
    Step.Splits reader.dropped (reader.step source false) (reader.step source true) := by
  have losses := congrArg Prod.fst (losses_supply reader)
  unfold step
  split
  · rename_i token supplier supplied
    rw [supplied] at losses
    split
    · exact .same _
    · exact .same _
    · rename_i stack _
      rw [show reader.dropped = supplier.dropped from losses.symm]
      exact splits_recover source { supplier with stack, latest := some token } token _
  · rename_i token supplier supplied
    rw [supplied] at losses
    rw [show reader.dropped = supplier.dropped from losses.symm]
    exact splits_recover source supplier token _
  · rename_i supplier supplied
    rw [supplied] at losses
    rw [show reader.dropped = supplier.dropped from losses.symm]
    split
    · exact .same _
    · exact .fails (Nat.lt_succ_self _)
  · exact .same _

theorem run_splits (source : List Char) (reader : Reader) :
    reader.run source false = reader.run source true ∨
      (∃ unexpected, (reader.run source false).result = .error unexpected) ∧
        reader.dropped < (reader.run source true).dropped := by
  fun_induction Reader.run source true reader with
  | case1 reader outcome stepped =>
    have splits := splits_step source reader
    rw [stepped] at splits
    generalize strictEq : reader.step source false = strict at splits
    cases splits
    exact .inl (run_of_done strictEq)
  | case2 reader next stepped ih =>
    have splits := splits_step source reader
    rw [stepped] at splits
    generalize strictEq : reader.step source false = strict at splits
    cases splits with
    | same =>
      rw [run_of_go strictEq]
      have less := (Moves.of_step strictEq).dropped_le
      exact ih.imp_right fun worse => ⟨worse.1, Nat.lt_of_le_of_lt less worse.2⟩
    | fails less =>
      refine .inr ⟨?_, Nat.lt_of_lt_of_le less (dropped_le_run source true next)⟩
      rw [run_of_done strictEq]
      exact ⟨_, rfl⟩

theorem losses_run_strict (source : List Char) (reader : Reader) :
    (Step.done (reader.run source false)).losses = reader.losses := by
  have kept {current : Reader} {step : Step} (moves : current.Moves source false step) :
      step.losses = current.losses := by
    rcases moves.losses_eq with losses | ⟨isTolerant, _⟩
    · exact losses
    · cases isTolerant
  refine run_induction (fun next => next.losses = reader.losses)
    (fun outcome => (Step.done outcome).losses = reader.losses) ?_ ?_ rfl
  · intro current next same stepped
    exact (kept (.of_step stepped)).trans same
  · intro current outcome same stepped
    exact (kept (.of_step stepped)).trans same

theorem dropped_run_strict (source : List Char) (reader : Reader) :
    (reader.run source false).dropped = reader.dropped :=
  congrArg Prod.fst (losses_run_strict source reader)

end Reader

theorem SourceFile.parse_of_unread {file : SourceFile} {tolerant : Bool} {unexpected : Unexpected}
    (failed : (Derivation.read file.text tolerant).result = .error unexpected) :
    (file.parse tolerant).result = .error (.unexpected file.name file.text unexpected) := by
  unfold parse
  dsimp only
  rw [failed]

/-- A strict parse gives a program, with some semicolons put in, if and only if a tolerant one gives
the same program with as many semicolons and leaves nothing out. -/
theorem SourceFile.parse_strict_iff (file : SourceFile) (program : Node) (inserted : Nat) :
    ((file.parse false).result = .ok program ∧ (file.parse false).inserted = inserted) ↔
      ((file.parse true).result = .ok program ∧ (file.parse true).inserted = inserted ∧
        (file.parse true).dropped = 0) := by
  have strict : (file.parse false).dropped = 0 :=
    Reader.dropped_run_strict file.text.toList (.ofSource file.text)
  rcases Reader.run_splits file.text.toList (.ofSource file.text) with same | ⟨failed, more⟩
  · have parsedSame : file.parse false = file.parse true := by
      unfold parse Derivation.read
      rw [same]
    rw [← parsedSame, strict]
    simp
  · obtain ⟨unexpected, failed⟩ := failed
    have error := parse_of_unread failed
    have dropped : 0 < (file.parse true).dropped := more
    constructor
    · rintro ⟨parsed, _⟩
      rw [error] at parsed
      cases parsed
    · rintro ⟨_, _, none⟩
      omega

end Namesake
