import Namesake.Proofs.Syntax.Terms

/-!
A text from which a program is derived consists of the tokens that were read, of blanks and
comments before and between them, and of characters that were left out.
-/

namespace Namesake

open List

-- The table of the automaton is a closed term; nothing below may evaluate it.
attribute [local irreducible] Automaton.rows

/-- Whether the text from a cursor to the end consists of some tokens, of blanks and comments, and
of characters at some places. -/
inductive Cursor.Consists : Cursor → List Token → List Position → Prop
  | nil {cursor : Cursor} (atEnd : cursor.rest = []) : Consists cursor [] []
  | trivia {cursor : Cursor} {tokens : List Token} {skipped : List Position}
      (further : Consists (cursor.advance (Lexeme.triviaLength cursor.rest)) tokens skipped) :
      Consists cursor tokens skipped
  | token {cursor : Cursor} {tokens : List Token} {skipped : List Position} (kind : Terminal)
      (length : Nat) (further : Consists (cursor.advance length) tokens skipped) :
      Consists cursor (Vocabulary.tokenAt cursor kind length :: tokens) skipped
  | character {cursor : Cursor} {tokens : List Token} {skipped : List Position} {char : Char}
      {rest : List Char} (restEq : cursor.rest = char :: rest)
      (further : Consists (cursor.advance 1) tokens skipped) :
      Consists cursor tokens (cursor.position :: skipped)

variable {tokens : List Token} {places : List Position}

theorem Cursor.Consists.of_skipTrivia {cursor : Cursor}
    (consists : cursor.skipTrivia.Consists tokens places) : cursor.Consists tokens places := by
  fun_induction Cursor.skipTrivia cursor with
  | case1 cursor count _ ih => exact .trivia (ih consists)
  | case2 => exact consists

theorem Cursor.Consists.of_next {vocabulary : Vocabulary} {cursor behind : Cursor} {token : Token}
    (read : vocabulary.next cursor = .token token behind)
    (consists : behind.Consists tokens places) : cursor.Consists (token :: tokens) places := by
  obtain ⟨length, _, tokenEq, rfl⟩ := Vocabulary.eq_of_next read
  refine .of_skipTrivia ?_
  rw [tokenEq]
  exact .token _ _ consists

def Notice.position? : Notice → Option Position
  | .skippedCharacter position => some position
  | .droppedToken _ => none

theorem Notice.length_eq (notices : List Notice) :
    notices.length = (notices.filterMap token?).length + (notices.filterMap position?).length := by
  induction notices with
  | nil => rfl
  | cons notice rest ih =>
    cases notice with
    | skippedCharacter | droppedToken =>
      simp only [filterMap_cons, token?, position?, length_cons, ih]
      omega

namespace Reader

variable {source : List Char} {tolerant : Bool} {reader next : Reader}

def skipped (reader : Reader) : List Position :=
  reader.notices.reverse.filterMap Notice.position?

theorem skipped_of_losses {other : Reader} (same : other.losses = reader.losses) :
    other.skipped = reader.skipped := by
  rw [skipped, (Prod.mk.inj same).2, skipped]

theorem skipped_without (reader : Reader) (token : Token) :
    (reader.without token).skipped = reader.skipped := by
  change (Notice.droppedToken token :: reader.notices).reverse.filterMap Notice.position? = _
  rw [reverse_cons, filterMap_append]
  exact append_nil _

theorem skipped_withoutCharacter (reader : Reader) :
    reader.withoutCharacter.skipped = reader.skipped ++ [reader.cursor.position] := by
  change (Notice.skippedCharacter _ :: reader.notices).reverse.filterMap Notice.position? = _
  rw [reverse_cons, filterMap_append]
  rfl

theorem consists_supply (consists : reader.supply.reader.cursor.Consists tokens places) :
    reader.cursor.Consists (reader.taken ++ tokens) places := by
  have supplies := reader.supplies_supply
  generalize reader.supply = supply at supplies consists
  cases supplies with
  | held waiting =>
    simp only [taken, waiting]
    exact consists
  | read free found | ended free found =>
    simp only [taken, free, found]
    exact .of_next found consists
  | foreign free stuck found =>
    simp only [taken, free, stuck, found]
    obtain rfl := Vocabulary.eq_of_next_stuck stuck
    exact .of_skipTrivia (.of_next found consists)
  | stuck free stuck none =>
    rw [taken_of_stuck free stuck none]
    exact .of_skipTrivia (Vocabulary.eq_of_next_stuck stuck ▸ consists)
  | finished free found =>
    simp only [taken, free, found]
    exact .of_skipTrivia ((Vocabulary.eq_of_next_finished found).1 ▸ consists)

theorem Halts.cursor_eq {token : Token} {halted : Reader} {semicolonFits : Bool}
    (halts : reader.Halts token halted semicolonFits) :
    halted.cursor = reader.supply.reader.cursor := by
  cases halts with
  | refused supplied _ =>
    rw [supplied]
    rfl
  | foreign supplied =>
    rw [supplied]
    rfl

theorem Moves.consists (moves : reader.Moves source tolerant (.go next))
    (further : next.cursor.Consists tokens places) :
    ∃ before, next.skipped = reader.skipped ++ before ∧
      reader.cursor.Consists (reader.taken ++ tokens) (before ++ places) := by
  have losses := losses_supply reader
  have supply {places : List Position}
      (consists : reader.supply.reader.cursor.Consists tokens places) := consists_supply consists
  cases moves with
  | shifted supplied _ =>
    rw [supplied] at losses supply
    refine ⟨[], ?_, supply further⟩
    rw [append_nil]
    exact skipped_of_losses losses
  | inserted halts _ _ _ =>
    refine ⟨[], ?_, supply (halts.cursor_eq ▸ further)⟩
    rw [append_nil]
    exact skipped_of_losses halts.losses_eq
  | dropped _ halts | insertedDropped _ halts =>
    refine ⟨[], ?_, supply (halts.cursor_eq ▸ further)⟩
    rw [append_nil, skipped_without]
    exact skipped_of_losses halts.losses_eq
  | @skipped supplier char rest _ supplied restEq =>
    rw [supplied] at losses supply
    refine ⟨[supplier.cursor.position], ?_, supply (.character restEq further)⟩
    rw [skipped_withoutCharacter]
    exact congrArg (· ++ [supplier.cursor.position]) (skipped_of_losses losses)

end Reader

namespace SourceFile

end SourceFile

end Namesake
