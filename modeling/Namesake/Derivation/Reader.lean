import Namesake.Derivation.Stack
import Namesake.Text.Quoted
import Namesake.Token.Vocabulary

/-!
The reader takes one token after another, each with the vocabulary of its state, and gives it to
the stack.  Where a token may not follow but a semicolon may, a semicolon is inserted before a
closing brace, at the end of the text, or at a line break.  A tolerant reader drops every other
token and character that may not follow; a strict one fails.
-/

namespace Namesake

inductive Notice where
  | skippedCharacter (position : Position)
  | droppedToken (token : Token)

inductive Unexpected where
  | token (token : Token)
  | character (char : Char) (position : Position)
deriving DecidableEq

namespace Unexpected

def position : Unexpected → Position
  | token found => found.extent.first
  | character _ position => position

def message : Unexpected → String
  | token found =>
    if found.kind = .endOfInput then "Parse error: unexpected end of input"
    else "Parse error: unexpected token " ++ (Text.ofChars found.text).quoted
  | character char _ => "Parse error: unexpected character " ++ (Text.ofChars [char]).quoted

end Unexpected

def Position.renderFromOne (position : Position) : String :=
  s!"{position.line}:{position.column + 1}"

def Notice.message : Notice → String
  | skippedCharacter position => "skipping unexpected character at " ++ position.renderFromOne
  | droppedToken token =>
    "dropping token " ++ (Text.ofChars token.text).quoted ++ " at " ++
      token.extent.first.renderFromOne

structure Outcome where
  result : Except Unexpected Derivation
  inserted : Nat
  dropped : Nat
  notices : List Notice

structure Reader where
  cursor : Cursor
  stack : Stack := []
  lexed : Option Token := none
  /-- The last token given to the stack since reading was last interrupted; after an interruption
  the last token read before it. -/
  latest : Option Token := none
  recent : Option Token := none
  held : Option Token := none
  inserted : Nat := 0
  dropped : Nat := 0
  notices : List Notice := []

namespace Reader

def ofSource (source : String) : Reader :=
  { cursor := Cursor.ofSource source }

/-- How much is left to do: two for each character and one for a waiting token. -/
def remaining (reader : Reader) : Nat :=
  2 * reader.cursor.rest.length + (if reader.held.isSome then 1 else 0)

/-! ### The next token -/

inductive Supply where
  | token (token : Token) (reader : Reader)
  | foreign (token : Token) (reader : Reader)
  | stuck (reader : Reader)
  | finished (reader : Reader)

/-- A token just read from the text, with the rules on line breaks before it. -/
def present (reader : Reader) (token : Token) : Supply :=
  match reader.recent with
  | none => .token token { reader with recent := some token }
  | some last =>
    if token.startsLineAfter last then
      let token := if token.kind = .updateOp then { token with kind := .leadingUpdateOp } else token
      if last.kind.isRestricted then
        .token (Token.semicolonAt last.extent.last) { reader with held := some token }
      else
        .token token { reader with recent := some token }
    else
      .token token { reader with recent := some token }

def vocabulary (reader : Reader) : Vocabulary :=
  Vocabulary.ofTerminals reader.stack.row.terminals

/-- The next token: the waiting one, or else one from the text.  Where the vocabulary has none, any
token that the language knows is offered as a foreign one. -/
def supply (reader : Reader) : Supply :=
  match reader.held with
  | some token => .token token { reader with held := none, recent := some token }
  | none =>
    match reader.vocabulary.next reader.cursor with
    | .token token behind =>
      present { reader with cursor := behind, lexed := some token } token
    | .finished place => .finished { reader with cursor := place }
    | .stuck place =>
      match Vocabulary.full.next place with
      | .token token behind =>
        .foreign token { reader with cursor := behind, lexed := some token }
      | _ => .stuck { reader with cursor := place }

/-! ### Semicolons -/

def previousEnd? (reader : Reader) : Option Position :=
  reader.stack.head?.bind fun frame => frame.tree.extent.map Extent.last

def newlineBetween (source : List Char) (first last : Position) : Bool :=
  ((source.drop first.offset.toNat).take (last.offset - first.offset).toNat).contains '\n'

/-- Whether a semicolon may be put in before a token that may not follow: before a closing brace, at
the end of the text, and where a newline stands before the token. -/
def mayInsertBefore (source : List Char) (reader : Reader) (token : Token) : Bool :=
  token.kind = .endOfInput || token.kind = .rightBrace ||
    match reader.previousEnd? with
    | none => false
    | some position => newlineBetween source position token.extent.first

/-- The semicolon that is put in before a token: at the end of the latest phrase, or at the token if
there is none. -/
def semicolonBefore (reader : Reader) (token : Token) : Token :=
  Token.semicolonAt (reader.previousEnd?.getD token.extent.first)

/-- Whether a semicolon may follow in a state, but no statement may start there.  At the start of a
statement a semicolon would be an empty statement. -/
def endsStatement (row : Row) : Bool :=
  row.accepts .semicolon && !row.accepts .varWord

/-! ### Steps -/

inductive Step where
  | go (reader : Reader)
  | done (outcome : Outcome)

def finish (reader : Reader) (result : Except Unexpected Derivation) : Outcome where
  result
  inserted := reader.inserted
  dropped := reader.dropped
  notices := reader.notices.reverse

def fail (reader : Reader) (unexpected : Unexpected) : Step :=
  .done (reader.finish (.error unexpected))

def resume (reader : Reader) : Step :=
  .go { reader with latest := reader.lexed }

def drop (reader : Reader) (token : Token) : Step :=
  { reader with dropped := reader.dropped + 1, notices := .droppedToken token :: reader.notices }.resume

/-- A token may not follow: a semicolon is put in before it, or it is left out, or reading fails. -/
def recover (source : List Char) (tolerant : Bool) (reader : Reader) (token : Token)
    (semicolonFits : Bool) : Step :=
  let reader := { reader with recent := some token }
  if semicolonFits && reader.mayInsertBefore source token then
    let semicolon := reader.semicolonBefore token
    match reader.stack.feed semicolon with
    | .shifted stack =>
      let reader := { reader with inserted := reader.inserted + 1 }
      match stack.feed token with
      | .shifted stack => { reader with stack }.resume
      | .refused stack =>
        if tolerant then { reader with stack }.drop token
        else { reader with stack }.fail (.token token)
      | .accepted _ => reader.fail (.token token)
    | _ => reader.fail (.token semicolon)
  else if tolerant then reader.drop token
  else reader.fail (.token token)

def conclude (reader : Reader) : Outcome :=
  let token := Token.endAfter reader.latest
  match reader.stack.feed token with
  | .accepted program => reader.finish (.ok program)
  | .shifted _ => reader.finish (.error (.token token))
  | .refused stack =>
    let reader := { reader with stack }
    if endsStatement stack.row then
      let semicolon := reader.semicolonBefore token
      match stack.feed semicolon with
      | .shifted stack =>
        let reader := { reader with inserted := reader.inserted + 1 }
        let token := Token.endAfter reader.lexed
        match stack.feed token with
        | .accepted program => reader.finish (.ok program)
        | _ => reader.finish (.error (.token token))
      | _ => reader.finish (.error (.token semicolon))
    else reader.finish (.error (.token token))

/-- One step: the next token goes to the stack, or something unexpected is dealt with. -/
def step (source : List Char) (tolerant : Bool) (reader : Reader) : Step :=
  match reader.supply with
  | .token token reader =>
    match reader.stack.feed token with
    | .shifted stack => .go { reader with stack, latest := some token }
    | .accepted _ => reader.fail (.token token)
    | .refused stack =>
      { reader with stack, latest := some token }.recover source tolerant token
        (endsStatement stack.row)
  | .foreign token reader =>
    let tried := reader.vocabulary.tried
    reader.recover source tolerant token
      (tried.contains .semicolon && !tried.contains .varWord)
  | .stuck reader =>
    match reader.cursor.rest with
    | [] => .done reader.conclude
    | char :: _ =>
      let place := reader.cursor.position
      if tolerant then
        { reader with
          cursor := reader.cursor.advance 1
          dropped := reader.dropped + 1
          notices := .skippedCharacter place :: reader.notices }.resume
      else reader.fail (.character char place)
  | .finished reader => .done reader.conclude

/-! ### The end of reading -/

/-- Whether a token is another one as it was read, or an increment that starts a line. -/
def IsReadAs (token given : Token) : Prop :=
  given = token ∨ token.kind = .updateOp ∧ given = { token with kind := .leadingUpdateOp }

theorem IsReadAs.extent_eq {token given : Token} (isReadAs : IsReadAs token given) :
    given.extent = token.extent := by
  rcases isReadAs with rfl | ⟨_, rfl⟩ <;> rfl

inductive Supplies (reader : Reader) : Supply → Prop
  | held {token : Token} (waiting : reader.held = some token) :
      Supplies reader (.token token { reader with held := none, recent := some token })
  | read {token given : Token} {behind : Cursor} (free : reader.held = none)
      (found : reader.vocabulary.next reader.cursor = .token token behind)
      (isReadAs : IsReadAs token given)
      (inLine : ∀ last, reader.recent = some last → token.startsLineAfter last = true →
        last.kind.isRestricted = false ∧ given.kind ≠ .updateOp) :
      Supplies reader (.token given
        { reader with cursor := behind, lexed := some token, recent := some given })
  /-- The token waits behind a semicolon, since the one before it ends at the line break. -/
  | ended {token given last : Token} {behind : Cursor} (free : reader.held = none)
      (found : reader.vocabulary.next reader.cursor = .token token behind)
      (isReadAs : IsReadAs token given) (recent : reader.recent = some last)
      (starts : token.startsLineAfter last = true) (restricted : last.kind.isRestricted = true) :
      Supplies reader (.token (Token.semicolonAt last.extent.last)
        { reader with cursor := behind, lexed := some token, held := some given })
  | foreign {token : Token} {place behind : Cursor} (free : reader.held = none)
      (stuck : reader.vocabulary.next reader.cursor = .stuck place)
      (found : Vocabulary.full.next place = .token token behind) :
      Supplies reader (.foreign token { reader with cursor := behind, lexed := some token })
  | stuck {place : Cursor} (free : reader.held = none)
      (stuck : reader.vocabulary.next reader.cursor = .stuck place)
      (none : ∀ token behind, Vocabulary.full.next place ≠ .token token behind) :
      Supplies reader (.stuck { reader with cursor := place })
  | finished {place : Cursor} (free : reader.held = none)
      (found : reader.vocabulary.next reader.cursor = .finished place) :
      Supplies reader (.finished { reader with cursor := place })

theorem supplies_supply (reader : Reader) : reader.Supplies reader.supply := by
  unfold supply
  split
  · exact .held ‹_›
  · rename_i free
    split
    · rename_i token behind found
      unfold present
      split
      · rename_i none
        exact .read free found (.inl rfl) fun last recent => nomatch none.symm.trans recent
      · rename_i last recent
        split
        · rename_i starts
          obtain ⟨given, givenEq, isReadAs, notUpdate⟩ : ∃ given : Token,
              given = (if token.kind = .updateOp then { token with kind := .leadingUpdateOp }
                else token) ∧ IsReadAs token given ∧ given.kind ≠ .updateOp := by
            refine ⟨_, rfl, ?_⟩
            split
            · exact ⟨.inr ⟨‹_›, rfl⟩, nofun⟩
            · exact ⟨.inl rfl, ‹_›⟩
          dsimp only
          rw [← givenEq]
          split
          · exact .ended free found isReadAs recent starts ‹_›
          · rename_i unrestricted
            refine .read free found isReadAs fun other same _ => ⟨?_, notUpdate⟩
            cases recent.symm.trans same
            exact Bool.eq_false_iff.2 unrestricted
        · rename_i inLine
          refine .read free found (.inl rfl) fun other same starts => ?_
          cases recent.symm.trans same
          exact absurd starts inLine
    · rename_i place found
      exact .finished free found
    · rename_i place stuck
      split
      · rename_i token behind found
        exact .foreign free stuck found
      · rename_i none
        exact .stuck free stuck none

theorem remaining_supply_token {reader next : Reader} {token : Token}
    (supplied : reader.supply = .token token next) : next.remaining < reader.remaining := by
  have supplies := reader.supplies_supply
  rw [supplied] at supplies
  cases supplies with
  | held waiting => simp [remaining, waiting]
  | read free found _ =>
    have shorter := Vocabulary.length_of_next_token found
    simp only [remaining, free]
    omega
  | ended free found _ _ _ _ =>
    have shorter := Vocabulary.length_of_next_token found
    simp only [remaining, free, Option.isSome_some, if_true]
    omega

theorem remaining_supply_foreign {reader next : Reader} {token : Token}
    (supplied : reader.supply = .foreign token next) : next.remaining < reader.remaining := by
  have supplies := reader.supplies_supply
  rw [supplied] at supplies
  cases supplies with
  | foreign free stuck found =>
    have inside := Vocabulary.length_of_next_stuck stuck
    have shorter := Vocabulary.length_of_next_token found
    simp only [remaining, free]
    omega

theorem remaining_supply_stuck {reader next : Reader}
    (supplied : reader.supply = .stuck next) : next.remaining ≤ reader.remaining := by
  have supplies := reader.supplies_supply
  rw [supplied] at supplies
  cases supplies with
  | stuck free stuck _ =>
    have inside := Vocabulary.length_of_next_stuck stuck
    simp only [remaining, free]
    omega

theorem remaining_recover {source : List Char} {tolerant semicolonFits : Bool}
    {reader next : Reader} {token : Token}
    (recovered : reader.recover source tolerant token semicolonFits = .go next) :
    next.remaining = reader.remaining := by
  unfold recover at recovered
  dsimp only at recovered
  split at recovered
  · split at recovered
    · split at recovered
      · cases recovered
        rfl
      · split at recovered
        · cases recovered
          rfl
        · cases recovered
      · cases recovered
    · cases recovered
  · split at recovered
    · cases recovered
      rfl
    · cases recovered

/-- Every step takes a character of the text or the waiting token, or is the last. -/
theorem remaining_step {source : List Char} {tolerant : Bool} {reader next : Reader}
    (stepped : reader.step source tolerant = .go next) : next.remaining < reader.remaining := by
  unfold step at stepped
  split at stepped
  · rename_i token supplier suppliedEq
    have less := remaining_supply_token suppliedEq
    split at stepped
    · cases stepped
      exact less
    · cases stepped
    · rw [remaining_recover stepped]
      exact less
  · rename_i token supplier suppliedEq
    dsimp only at stepped
    rw [remaining_recover stepped]
    exact remaining_supply_foreign suppliedEq
  · rename_i supplier suppliedEq
    have atMost := remaining_supply_stuck suppliedEq
    split at stepped
    · cases stepped
    · rename_i char rest restEq
      dsimp only at stepped
      split at stepped
      · cases stepped
        refine Nat.lt_of_lt_of_le ?_ atMost
        simp [remaining, Cursor.rest_advance, restEq]
      · cases stepped
  · cases stepped

def run (source : List Char) (tolerant : Bool) (reader : Reader) : Outcome :=
  match _stepped : reader.step source tolerant with
  | .done outcome => outcome
  | .go next => next.run source tolerant
termination_by reader.remaining
decreasing_by exact remaining_step _stepped

end Reader

def Derivation.read (source : String) (tolerant : Bool) : Outcome :=
  (Reader.ofSource source).run source.toList tolerant

end Namesake
