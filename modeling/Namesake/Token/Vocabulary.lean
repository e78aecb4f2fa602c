import Namesake.Token.Lexeme

/-!
Which kinds of token are tried depends on what may follow at that place.  A `Vocabulary`
holds those kinds; `Vocabulary.next` skips blanks and comments from a `Cursor` on and reads
the first token behind them.  Every token takes at least one character, so reading tokens
one after another comes to an end.
-/

namespace Namesake

structure Cursor where
  rest : List Char
  position : Position
deriving Inhabited

namespace Cursor

def ofSource (source : String) : Cursor :=
  ⟨source.toList, ⟨0, 1, 0⟩⟩

def step (position : Position) (char : Char) : Position :=
  if char = '\n' then ⟨position.offset + 1, position.line + 1, 0⟩
  else ⟨position.offset + 1, position.line, position.column + 1⟩

def advance (cursor : Cursor) (count : Nat) : Cursor :=
  ⟨cursor.rest.drop count, (cursor.rest.take count).foldl step cursor.position⟩

theorem rest_advance (cursor : Cursor) (count : Nat) :
    (cursor.advance count).rest = cursor.rest.drop count :=
  rfl

def skipTrivia (cursor : Cursor) : Cursor :=
  let count := Lexeme.triviaLength cursor.rest
  if 0 < count ∧ 0 < cursor.rest.length then (cursor.advance count).skipTrivia else cursor
termination_by cursor.rest.length
decreasing_by
  simp only [rest_advance, List.length_drop]
  omega

theorem length_skipTrivia (cursor : Cursor) :
    cursor.skipTrivia.rest.length ≤ cursor.rest.length := by
  fun_induction skipTrivia cursor with
  | case1 cursor count nonempty inductionHypothesis =>
    refine Nat.le_trans inductionHypothesis ?_
    simp only [rest_advance, List.length_drop]
    omega
  | case2 => exact Nat.le_refl _

end Cursor

structure Vocabulary where
  tried : List Terminal
  /-- The keywords that are read as names first and then recognised. -/
  keywords : List Terminal
deriving Inhabited

namespace Vocabulary

/-- The vocabulary of a set of kinds.  Where names are allowed every keyword is read as a whole word;
elsewhere a keyword matches its letters alone, whatever follows them. -/
def ofTerminals (allowed : List Terminal) : Vocabulary :=
  let ordered := Terminal.all.filter allowed.contains
  if allowed.contains .identifier then
    ⟨ordered.filter fun kind => !kind.isKeyword, ordered.filter Terminal.isKeyword⟩
  else
    ⟨ordered, []⟩

def full : Vocabulary :=
  ofTerminals Terminal.all

def kindOfName (vocabulary : Vocabulary) (name : List Char) : Terminal :=
  (vocabulary.keywords.find? fun kind => kind.spellings.any fun word => word.toList = name).getD
    .identifier

/-- The kind and length of the token at the start of a text: the first kind that matches. -/
def read? (vocabulary : Vocabulary) (chars : List Char) : Option (Terminal × Nat) := do
  let (kind, length) ← vocabulary.tried.findSome? fun kind => (kind.lexeme? chars).map (kind, ·)
  if kind = .identifier then
    return (vocabulary.kindOfName (chars.take length), length)
  return (kind, length)

def tokenAt (cursor : Cursor) (kind : Terminal) (length : Nat) : Token :=
  ⟨kind, cursor.rest.take length, ⟨cursor.position, (cursor.advance length).position⟩⟩

inductive Reading where
  | token (token : Token) (behind : Cursor)
  | stuck (place : Cursor)
  | finished (place : Cursor)

/-- Skips blanks and comments and reads the token behind them.  A kind that would take no character
does not match. -/
def next (vocabulary : Vocabulary) (cursor : Cursor) : Reading :=
  let place := cursor.skipTrivia
  if place.rest.isEmpty then .finished place
  else
    match vocabulary.read? place.rest with
    | some (kind, length + 1) =>
      .token (tokenAt place kind (length + 1)) (place.advance (length + 1))
    | _ => .stuck place

inductive Reads (vocabulary : Vocabulary) (cursor : Cursor) : Reading → Prop
  | token {kind : Terminal} {length : Nat} (nonempty : cursor.skipTrivia.rest ≠ [])
      (found : vocabulary.read? cursor.skipTrivia.rest = some (kind, length + 1)) :
      Reads vocabulary cursor (.token (tokenAt cursor.skipTrivia kind (length + 1))
        (cursor.skipTrivia.advance (length + 1)))
  | stuck (none : ∀ kind length,
        vocabulary.read? cursor.skipTrivia.rest ≠ some (kind, length + 1)) :
      Reads vocabulary cursor (.stuck cursor.skipTrivia)
  | finished (atEnd : cursor.skipTrivia.rest = []) :
      Reads vocabulary cursor (.finished cursor.skipTrivia)

theorem reads_next (vocabulary : Vocabulary) (cursor : Cursor) :
    vocabulary.Reads cursor (vocabulary.next cursor) := by
  unfold next
  dsimp only
  split
  · rename_i atEnd
    exact .finished (List.isEmpty_iff.1 atEnd)
  · rename_i nonempty
    split
    · rename_i found
      exact .token (fun atEnd => nonempty (List.isEmpty_iff.2 atEnd)) found
    · rename_i none
      exact .stuck fun kind length found => none kind length found

theorem length_of_next_token {vocabulary : Vocabulary} {cursor behind : Cursor} {token : Token}
    (read : vocabulary.next cursor = .token token behind) :
    behind.rest.length < cursor.rest.length := by
  have reads := vocabulary.reads_next cursor
  rw [read] at reads
  cases reads with
  | token nonempty found =>
    have bound := cursor.length_skipTrivia
    have positive := List.length_pos_iff.2 nonempty
    simp only [Cursor.rest_advance, List.length_drop]
    omega

theorem length_of_next_stuck {vocabulary : Vocabulary} {cursor place : Cursor}
    (read : vocabulary.next cursor = .stuck place) :
    place.rest.length ≤ cursor.rest.length := by
  have reads := vocabulary.reads_next cursor
  rw [read] at reads
  cases reads with
  | stuck => exact cursor.length_skipTrivia

end Vocabulary

end Namesake
