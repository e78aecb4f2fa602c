import Namesake.Proofs.Syntax.Derivation

/-!
A cursor always stands at a place of the text, with the line and the column of that place.  So
each token that is read is a piece of the text, at its place.
-/

namespace Namesake

open List

/-- The position behind some characters from the start of a text. -/
def Position.after (before : List Char) : Position :=
  before.foldl Cursor.step ⟨0, 1, 0⟩

def Position.IsIn (source : List Char) (position : Position) : Prop :=
  ∃ before, before <+: source ∧ position = .after before

theorem Position.after_append (first second : List Char) :
    after (first ++ second) = second.foldl Cursor.step (after first) :=
  foldl_append

theorem Cursor.offset_step (position : Position) (char : Char) :
    (step position char).offset = position.offset + 1 := by
  unfold step
  split <;> rfl

theorem Position.offset_after (before : List Char) : (after before).offset = before.length := by
  have each (position : Position) :
      (before.foldl Cursor.step position).offset = position.offset + before.length := by
    induction before generalizing position with
    | nil => simp
    | cons char rest ih =>
      rw [foldl_cons, ih, Cursor.offset_step, length_cons]
      omega
  simpa [after] using each ⟨0, 1, 0⟩

theorem Position.IsIn.bounds {source : List Char} {position : Position} (isIn : position.IsIn source) :
    0 ≤ position.offset ∧ position.offset ≤ source.length := by
  obtain ⟨before, start, rfl⟩ := isIn
  rw [offset_after]
  have short := start.length_le
  omega

def Cursor.IsAt (source : List Char) (cursor : Cursor) : Prop :=
  ∃ before, source = before ++ cursor.rest ∧ cursor.position = .after before

namespace Cursor

variable {source : List Char} {cursor : Cursor}

theorem IsAt.advance (isAt : cursor.IsAt source) (count : Nat) :
    (cursor.advance count).IsAt source := by
  obtain ⟨before, sourceEq, positionEq⟩ := isAt
  refine ⟨before ++ cursor.rest.take count, ?_, ?_⟩
  · rw [rest_advance, append_assoc, take_append_drop, sourceEq]
  · rw [Position.after_append, ← positionEq]
    rfl

theorem IsAt.isIn (isAt : cursor.IsAt source) : cursor.position.IsIn source := by
  obtain ⟨before, sourceEq, positionEq⟩ := isAt
  exact ⟨before, ⟨cursor.rest, sourceEq.symm⟩, positionEq⟩

theorem le_advance (cursor : Cursor) (count : Nat) :
    cursor.position.offset ≤ (cursor.advance count).position.offset := by
  have each (chars : List Char) (position : Position) :
      position.offset ≤ (chars.foldl step position).offset := by
    induction chars generalizing position with
    | nil => exact Int.le_refl _
    | cons char rest ih =>
      have further := ih (step position char)
      rw [offset_step] at further
      rw [foldl_cons]
      omega
  exact each _ _

theorem IsAt.skipTrivia (isAt : cursor.IsAt source) : cursor.skipTrivia.IsAt source := by
  fun_induction Cursor.skipTrivia cursor with
  | case1 cursor count _ ih => exact ih (isAt.advance _)
  | case2 => exact isAt

theorem le_skipTrivia (cursor : Cursor) :
    cursor.position.offset ≤ cursor.skipTrivia.position.offset := by
  fun_induction Cursor.skipTrivia cursor with
  | case1 cursor count _ ih => exact Int.le_trans (le_advance cursor _) ih
  | case2 => exact Int.le_refl _

end Cursor

def Token.IsPiece (source : List Char) (token : Token) : Prop :=
  ∃ before after, source = before ++ (token.text ++ after) ∧ token.text ≠ [] ∧
    token.extent = ⟨.after before, .after (before ++ token.text)⟩

namespace Vocabulary

variable {vocabulary : Vocabulary} {source : List Char} {cursor : Cursor}

theorem isPiece_of_next {behind : Cursor} {token : Token} (isAt : cursor.IsAt source)
    (read : vocabulary.next cursor = .token token behind) :
    token.IsPiece source ∧ behind.IsAt source ∧ cursor.position.offset ≤ token.extent.first.offset ∧
      token.extent.last = behind.position := by
  have reads := vocabulary.reads_next cursor
  rw [read] at reads
  cases reads with
  | @token kind length nonempty found =>
    obtain ⟨before, sourceEq, positionEq⟩ := isAt.skipTrivia
    refine ⟨⟨before, cursor.skipTrivia.rest.drop (length + 1), ?_, ?_, ?_⟩,
      isAt.skipTrivia.advance _, cursor.le_skipTrivia, rfl⟩
    · rw [tokenAt, take_append_drop]
      exact sourceEq
    · simpa [tokenAt] using nonempty
    · rw [tokenAt, Position.after_append, ← positionEq]
      rfl

theorem kind_of_next {behind : Cursor} {token : Token}
    (read : vocabulary.next cursor = .token token behind) : token.kind ≠ .leadingUpdateOp := by
  have reads := vocabulary.reads_next cursor
  rw [read] at reads
  cases reads with
  | token _ found =>
    rintro rfl
    rcases cases_of_read? found with ⟨_, _, lexeme⟩ | ⟨_, _, isName | ⟨_, word, member, _⟩⟩
    · cases lexeme
    · cases isName
    · cases member

theorem isAt_of_next_stuck {place : Cursor} (isAt : cursor.IsAt source)
    (read : vocabulary.next cursor = .stuck place) :
    place.IsAt source ∧ cursor.position.offset ≤ place.position.offset := by
  have reads := vocabulary.reads_next cursor
  rw [read] at reads
  cases reads
  exact ⟨isAt.skipTrivia, cursor.le_skipTrivia⟩

theorem isAt_of_next_finished {place : Cursor} (isAt : cursor.IsAt source)
    (read : vocabulary.next cursor = .finished place) :
    place.IsAt source ∧ cursor.position.offset ≤ place.position.offset := by
  have reads := vocabulary.reads_next cursor
  rw [read] at reads
  cases reads
  exact ⟨isAt.skipTrivia, cursor.le_skipTrivia⟩

end Vocabulary

namespace Token

/-- Whether a token is a semicolon that was put in: it takes no room. -/
def isInserted (token : Token) : Bool :=
  token.extent.first = token.extent.last

/-- A token as it was read, before its place in a line is taken into account. -/
def asRead (token : Token) : Token :=
  if token.kind = .leadingUpdateOp then { token with kind := .updateOp } else token

/-- Whether a token is one that was read from a text, or a semicolon that was put in at a place of the
text. -/
inductive IsOf (source : List Char) : Token → Prop
  | read {token : Token} (piece : token.IsPiece source) : IsOf source token
  | inserted {position : Position} (isIn : position.IsIn source) :
      IsOf source (semicolonAt position)

variable {source : List Char} {token : Token}

theorem extent_asRead (token : Token) : token.asRead.extent = token.extent := by
  unfold asRead
  split <;> rfl

theorem asRead_of_ne (other : token.kind ≠ .leadingUpdateOp) : token.asRead = token :=
  if_neg other

theorem isInserted_asRead (token : Token) : token.asRead.isInserted = token.isInserted := by
  rw [isInserted, extent_asRead, isInserted]

theorem IsPiece.lt (piece : token.IsPiece source) :
    token.extent.first.offset < token.extent.last.offset := by
  obtain ⟨before, after, _, nonempty, extentEq⟩ := piece
  have positive := length_pos_iff.2 nonempty
  rw [extentEq, Position.offset_after, Position.offset_after, length_append]
  omega

theorem IsPiece.not_isInserted (piece : token.IsPiece source) : token.isInserted = false := by
  have less := piece.lt
  refine decide_eq_false fun same => ?_
  rw [same] at less
  exact Int.lt_irrefl _ less

theorem isInserted_semicolonAt (position : Position) :
    (semicolonAt position).isInserted = true :=
  decide_eq_true rfl

theorem IsOf.isPiece (isOf : token.IsOf source) (notInserted : token.isInserted = false) :
    token.IsPiece source := by
  cases isOf with
  | read piece => exact piece
  | inserted isIn =>
    rw [isInserted_semicolonAt] at notInserted
    cases notInserted

theorem IsOf.le (isOf : token.IsOf source) :
    token.extent.first.offset ≤ token.extent.last.offset := by
  cases isOf with
  | read piece => exact Int.le_of_lt piece.lt
  | inserted isIn => exact Int.le_refl _

theorem IsOf.isIn (isOf : token.IsOf source) :
    token.extent.first.IsIn source ∧ token.extent.last.IsIn source := by
  cases isOf with
  | read piece =>
    obtain ⟨before, after, rfl, _, extentEq⟩ := piece
    rw [extentEq]
    refine ⟨⟨before, prefix_append _ _, rfl⟩, ⟨before ++ token.text, ?_, rfl⟩⟩
    rw [← append_assoc]
    exact prefix_append _ _
  | inserted isIn => exact ⟨isIn, isIn⟩

end Token

end Namesake
