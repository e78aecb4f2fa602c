import Namesake.Workspace
import Namesake.CommandLine.Arguments
import Namesake.CommandLine.Directory
import Namesake.CommandLine.Listing
import Namesake.Text.Utf8

/-!
The program loads the named files, answers one question about them, and shows the groups.  Here
it is a function of its arguments and of the files; reading and printing happen outside.
-/

namespace Namesake

structure Report where
  exitCode : Nat
  output : String := ""
  /-- What goes to the error stream; nothing if only the usage is shown there. -/
  errors : Option String := some ""

structure Screen where
  errors : Bool := false
  output : Bool := false

namespace CommandLine

def readPlace (text : String) : Except Fault (Option (String × Nat)) :=
  let reversed := text.toList.reverse
  let digits := (reversed.takeWhile (· ≠ ':')).reverse
  match reversed.dropWhile (· ≠ ':') with
  | [] => .ok none
  | _ :: file =>
    let points := digits.map Char.toNat
    if points.isEmpty || !points.all Text.isDigit then .ok none
    else
      match Text.number? points with
      | none => .error .badNumber
      | some offset => .ok (some (Path.plain (String.ofList file.reverse), offset))

def complain (text : String) : String :=
  "jsrename: " ++ text ++ "\n"

def readSources (directory : Directory) : Sources → List String → Except String Sources
  | sources, [] => .ok sources
  | sources, path :: rest =>
    match directory.read? path with
    | none => .error (complain ("error: file not found: " ++ path))
    | some bytes =>
      match Text.Utf8.decode bytes with
      | .error invalid => .error (complain ("error: could not read file: " ++ invalid.message))
      | .ok chars =>
        let text := String.ofList (Text.Utf8.plainLineEnds chars)
        readSources directory (sources.insert path text) rest

/-- Loads sources into a workspace and tells what happens.  The first fault ends it. -/
def loadAll (workspace : Workspace) (events : List Event) :
    Sources → Except Fault Workspace × List Event
  | [] => (.ok workspace, events)
  | (file, text) :: rest =>
    let source : SourceFile := ⟨file, text⟩
    let parsed := source.parse true
    let events := events ++ parsed.events file
    match workspace.addParsed source parsed with
    | (.error fault, _) => (.error fault, events)
    | (.ok _, workspace) => loadAll workspace (events ++ workspace.loadEvents file) rest

inductive Answer where
  | groups (ranges : List (List Location)) (events : List Event)
  | nothing (complaint : String)

def answerAt (workspace : Workspace) (sources : Sources) (text : String) : Except Fault Answer := do
  match ← readPlace text with
  | none =>
    let shown := (Text.ofString text).quoted
    return .nothing (complain ("error: expected FILE:OFFSET, got " ++ shown))
  | some (file, offset) =>
    if (sources.lookup file).isNone then
      return .nothing (complain ("error: " ++ file ++ " is not among the loaded files"))
    else
      match ← workspace.renameAt file (.int offset) with
      | none => return .nothing (complain s!"no identifier at {file}:{offset}")
      | some outcome =>
        let ranges ← workspace.ranges outcome
        return .groups ranges (outcome.events workspace.codebase.root ++
          [.renamed file offset outcome.kind outcome.groups.length])

def answerProperty (workspace : Workspace) (name : String) : Except Fault Answer := do
  let outcome ← workspace.renameProperty (.text (Text.ofString name))
  return .groups (← workspace.ranges outcome) (outcome.events workspace.codebase.root)

def answer (workspace : Workspace) (sources : Sources) : Query → Except Fault Answer
  | .at place => answerAt workspace sources place
  | .property name => answerProperty workspace name

/-- Runs the program on arguments that make sense.  A fault that the user cannot act on stays a
fault. -/
def execute (screen : Screen) (directory : Directory) (arguments : Arguments) :
    Except Fault Report :=
  let tell (events : List Event) : String :=
    if arguments.verbose then String.join (events.map Event.render) else ""
  match readSources directory [] (arguments.files.map Path.plain) with
  | .error complaint => .ok { exitCode := 1, errors := some complaint }
  | .ok sources =>
    let (loaded, events) := loadAll Workspace.empty [] sources
    match loaded.bind fun workspace => answer workspace sources arguments.query with
    | .ok (.nothing complaint) =>
      .ok { exitCode := 1, errors := some (tell events ++ complaint) }
    | .ok (.groups ranges more) =>
      let output :=
        if ranges.isEmpty then "" else Listing.render sources screen.output ranges ++ "\n"
      .ok { exitCode := 0, output, errors := some (tell (events ++ more)) }
    | .error fault =>
      match fault.complaint? with
      | none => .error fault
      | some complaint =>
        let report := Diagnostic.report sources screen.errors [complaint.diagnostic] ++ "\n"
        .ok { exitCode := 1, errors := some (tell events ++ report) }

def run (screen : Screen) (directory : Directory) (texts : List String) : Except Fault Report :=
  match Arguments.read texts with
  | .refused => .ok { exitCode := 2, errors := none }
  | .help => .ok { exitCode := 0, errors := none }
  | .run arguments => execute screen directory arguments

end CommandLine

end Namesake
