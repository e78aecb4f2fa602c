import Namesake.Location

/-!
A diagnostic is shown with the line it points at and a row of carets below the place:

    error[E0001]: unexpected token ')'
     --> app.js:3:14
      |
    3 | var x = foo(1,);
      |               ^

Source texts are given by file name; a place in a file without a text, or behind its last
line, is shown without the line.
-/

namespace Namesake

abbrev Sources := List (String × String)

inductive Style where
  | bold
  | red
  | blue
  | grey
deriving DecidableEq

namespace Style

def code : Style → String
  | bold => "\x1b[1m"
  | red => "\x1b[31m"
  | blue => "\x1b[34m"
  | grey => "\x1b[90m"

def reset : String :=
  "\x1b[0m"

def apply (colour : Bool) (styles : List Style) (text : String) : String :=
  if colour && !styles.isEmpty then String.join (styles.map code) ++ text ++ reset else text

end Style

/-- Whether to show colour on a stream.  It is not shown if colour is switched off for all programs by
any text, or for this one by a word that says no, and only on a terminal. -/
def wantsColour (switchedOff preference : Option String) (terminal : Bool) : Bool :=
  if (switchedOff.getD "") ≠ "" then false
  else if ["0", "false", "no", "never"].contains (preference.getD "").toLower then false
  else terminal

def consToFirst (char : Char) : List (List Char) → List (List Char)
  | [] => [[char]]
  | line :: rest => (char :: line) :: rest

/-- The lines of a text.  A line ends at a newline, at a carriage return, or at both together. -/
def splitLines : List Char → List (List Char)
  | [] => [[]]
  | '\r' :: '\n' :: rest => [] :: splitLines rest
  | char :: rest =>
    if char = '\n' || char = '\r' then [] :: splitLines rest
    else consToFirst char (splitLines rest)

structure Diagnostic where
  message : String
  location : Option Location := none
  code : Option String := none
  help : Option String := none

namespace Diagnostic

def spaces (count : Nat) : String :=
  String.ofList (List.replicate count ' ')

/-- The number of carets below a place: its width if it lies in one line, otherwise one. -/
def caretCount (location : Location) : Nat :=
  if location.first.line.same location.last.line then
    match location.first.column.whole?, location.last.column.whole? with
    | some start, some stop => if start < stop then (stop - start).toNat else 1
    | _, _ => 1
  else 1

def quotedLine? (sources : Sources) (location : Location) : Option String := do
  let source ← sources.lookup location.file
  let number ← location.first.line.whole?
  guard (1 ≤ number)
  let line ← (splitLines source.toList)[number.toNat - 1]?
  return String.ofList line

def headline (colour : Bool) (code : String) (message : String) : String :=
  Style.apply colour [.bold, .red] ("error" ++ code) ++
    Style.apply colour [.bold] (": " ++ message)

/-- The lines below a location: the quoted line, the carets and the help.  The number of the line stands
on the right of a column as wide as the line is spelled. -/
def excerpt (colour : Bool) (location : Location) (line : String) (help : Option String) :
    List String :=
  let frame := Style.apply colour [.bold, .blue]
  let width := location.first.line.display.length
  let number := toString (location.first.line.whole?.getD 0)
  let indent := (location.first.column.whole?.getD 0).toNat
  let gutter := frame (spaces (width + 1) ++ "|")
  let carets := String.ofList (List.replicate (caretCount location) '^')
  let hint :=
    match help with
    | none => []
    | some text =>
      if text = "" then []
      else [frame (spaces (width + 1) ++ "= ") ++ Style.apply colour [.bold] "help: " ++
        text]
  [ gutter,
    frame (spaces (width - number.length) ++ number ++ " | ") ++ line,
    gutter ++ " " ++ spaces indent ++ Style.apply colour [.bold, .red] carets ] ++
    hint

def render (sources : Sources) (colour : Bool) (diagnostic : Diagnostic) : String :=
  let code :=
    match diagnostic.code with
    | none => ""
    | some code => if code = "" then "" else "[" ++ code ++ "]"
  let arrow := Style.apply colour [.bold, .blue] " --> "
  let head := headline colour code diagnostic.message
  match diagnostic.location with
  | none => "\n".intercalate [head, arrow ++ "<unknown location>"]
  | some location =>
    let below :=
      match quotedLine? sources location with
      | none => []
      | some line => excerpt colour location line diagnostic.help
    "\n".intercalate ([head, arrow ++ location.render] ++ below)

end Diagnostic

inductive Complaint where
  | request (message : String) (location : Option Location)
  | source (message : String) (location : Option Location) (code : Option String)
      (source : Option String)

namespace Complaint

def diagnostic : Complaint → Diagnostic
  | request message location => { message, location }
  | source message location code _ => { message, location, code }

def message : Complaint → String
  | request message none => message
  | request message (some location) => message ++ "\n --> " ++ location.render
  | source message location code text =>
    let sources : Sources :=
      match text, location with
      | some text, some place => [(place.file, text)]
      | _, _ => []
    Diagnostic.render sources false { message, location, code }

end Complaint

def Diagnostic.report (sources : Sources) (colour : Bool) (diagnostics : List Diagnostic) :
    String :=
  let count := diagnostics.length
  let errors := if count = 1 then "error" else "errors"
  let summary := Diagnostic.headline colour "" s!"aborting due to {count} previous {errors}"
  "\n\n".intercalate (diagnostics.map (render sources colour) ++ [summary])

end Namesake
