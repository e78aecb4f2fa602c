import Namesake.Text.Digit
import Namesake.Text

/-!
The arguments of the command line.

    FILE... (--at FILE:OFFSET | --property NAME) [--verbose]

Options may be shortened as long as they are unambiguous, and may have their value attached
behind an equals sign.  The files stand together, before, between or behind the options; what
follows a double dash is never an option.
-/

namespace Namesake

inductive Query where
  | at (place : String)
  | property (name : String)

structure Arguments where
  files : List String
  query : Query
  verbose : Bool

namespace Arguments

inductive Request where
  | run (arguments : Arguments)
  | help
  | refused

inductive Flag where
  | help
  | at
  | property
  | verbose
deriving DecidableEq

def spellings : List (String × Flag) :=
  [("-h", .help), ("--help", .help), ("--at", .at), ("--property", .property),
    ("--verbose", .verbose)]

inductive Item where
  | plain (text : String)
  | divider
  /-- An option, perhaps with a value attached; a short one is a single letter. -/
  | option (flag : Flag) (value : Option String) (short : Bool)
  | unknown

def splitEquals (text : String) : String × Option String :=
  let chars := text.toList
  let before := chars.takeWhile (· ≠ '=')
  if before.length < chars.length then
    (String.ofList before, some (String.ofList (chars.drop (before.length + 1))))
  else (text, none)

def isNegativeNumber (text : String) : Bool :=
  match text.toList with
  | '-' :: rest =>
    let rest := if rest.getLast? = some '\n' then rest.dropLast else rest
    let isDigit (char : Char) : Bool := Text.isDecimal char.toNat
    let fraction := rest.dropWhile isDigit
    match fraction with
    | [] => !rest.isEmpty
    | '.' :: digits => !digits.isEmpty && digits.all isDigit
    | _ => false
  | _ => false

def expansions (text : String) : List Item :=
  if text.startsWith "--" then
    let (shortened, value) := splitEquals text
    spellings.filterMap fun (spelling, flag) =>
      if spelling.startsWith shortened then some (.option flag value false) else none
  else
    spellings.filterMap fun (spelling, flag) =>
      if spelling.toList = text.toList.take 2 then
        some (.option flag (some (String.ofList (text.toList.drop 2))) true)
      else none

/-- The form of an argument that spells no option out; nothing if it is short for several options. -/
def shortened? (text : String) : Option Item :=
  match expansions text with
  | [] =>
    if isNegativeNumber text || text.toList.contains ' ' then some (.plain text)
    else some .unknown
  | [item] => some item
  | _ => none

def item? (text : String) : Option Item :=
  if !text.startsWith "-" || text = "-" then some (.plain text)
  else
    let (spelling, value) := splitEquals text
    match spellings.lookup text, value, spellings.lookup spelling with
    | some flag, _, _ => some (.option flag none false)
    | none, some value, some flag => some (.option flag (some value) (!spelling.startsWith "--"))
    | _, _, _ => shortened? text

def items? : List String → Option (List Item)
  | [] => some []
  | text :: rest =>
    if text = "--" then some (.divider :: rest.map .plain)
    else do return (← item? text) :: (← items? rest)

structure Progress where
  files : Option (List String) := none
  taking : Bool := false
  place : Option String := none
  property : Option String := none
  verbose : Bool := false
  extra : Bool := false

namespace Progress

def takeFiles (progress : Progress) (texts : List String) : Progress :=
  if texts.isEmpty then { progress with extra := true }
  else
    match progress.files with
    | none => { progress with files := some texts }
    | some _ => { progress with extra := true }

def setValue? (progress : Progress) (flag : Flag) (value : String) : Option Progress :=
  match flag with
  | .at => if progress.property.isSome then none else some { progress with place := some value }
  | .property =>
    if progress.place.isSome then none else some { progress with property := some value }
  | _ => none

def finish (progress : Progress) : Request :=
  if progress.extra then .refused
  else
    match progress.files, progress.place, progress.property with
    | some files, some place, none => .run ⟨files, .at place, progress.verbose⟩
    | some files, none, some name => .run ⟨files, .property name, progress.verbose⟩
    | _, _, _ => .refused

end Progress

/-- Whether letters attached to a short option that takes no value are that option again.  What is
attached is read as further short options, and help is the only one. -/
def repeatsHelp (attached : String) : Bool :=
  attached ≠ "" && attached.toList.all (· = 'h')

def settle (progress : Progress) (run : List String) : Progress :=
  if progress.taking then { progress.takeFiles run.reverse with taking := false } else progress

/-- Takes items one after another.  Items that are no options are collected, the latest first, and
taken as the files where an option or the end follows. -/
def collect (progress : Progress) (run : List String) : List Item → Request
  | [] => (settle progress run).finish
  | .plain text :: rest => collect { progress with taking := true } (text :: run) rest
  | .divider :: rest => collect { progress with taking := true } run rest
  | .unknown :: rest => collect { settle progress run with extra := true } [] rest
  | .option .help none _ :: _ => .help
  | .option .help (some value) short :: _ =>
    if short && repeatsHelp value then .help else .refused
  | .option .verbose none _ :: rest => collect { settle progress run with verbose := true } [] rest
  | .option .verbose (some _) _ :: _ => .refused
  | .option flag (some value) _ :: rest =>
    match (settle progress run).setValue? flag value with
    | some progress => collect progress [] rest
    | none => .refused
  | .option flag none _ :: .plain value :: rest =>
    match (settle progress run).setValue? flag value with
    | some progress => collect progress [] rest
    | none => .refused
  | .option _ none _ :: _ => .refused

def read (texts : List String) : Request :=
  match items? texts with
  | none => .refused
  | some items => collect { } [] items

end Arguments

end Namesake
