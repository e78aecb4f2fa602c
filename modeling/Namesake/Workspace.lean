import Namesake.Event
import Namesake.Node.Loaded

/-!
A workspace holds programs under file names and answers questions about the token at an offset of
a file.  A question that finds nothing, because the file is not loaded, the offset is in no
node or the node names nothing, has the answer `none`.
-/

namespace Namesake

structure Workspace where
  programs : List Node := []
  scopes : Scopes := []
  sources : Sources := []

namespace Node

def withFile (file : String) : Node → Node
  | .mk .program [body, _] location => .mk .program [body, .data (.ofString file)] location
  | node => node

def statementCount? (node : Node) : Option Nat :=
  ((node.field? "body").bind Field.elements?).map List.length

end Node

def Sources.insert (sources : Sources) (file source : String) : Sources :=
  if (sources.lookup file).isSome then
    sources.map fun entry => if entry.1 = file then (file, source) else entry
  else sources ++ [(file, source)]

namespace Workspace

def empty : Workspace :=
  { }

def codebase (workspace : Workspace) : Codebase :=
  ⟨Node.collection workspace.programs, workspace.scopes⟩

def program? (workspace : Workspace) (file : String) : Option Occurrence :=
  workspace.codebase.root.programOf? file

def files (workspace : Workspace) : List String :=
  workspace.programs.filterMap Node.file?

def source? (workspace : Workspace) (file : String) : Option String :=
  workspace.sources.lookup file

/-- Loads a program under a file name.  The program is part of the workspace once its scopes are
known. -/
def load (workspace : Workspace) (file : String) (program : Node) :
    Except Fault Node × Workspace :=
  let program := program.withFile file
  match Scopes.ofProgram ⟨[⟨0, some workspace.programs.length⟩], program⟩ with
  | .error fault => (.error fault, workspace)
  | .ok scopes =>
    let workspace := { workspace with
      programs := workspace.programs ++ [program], scopes := workspace.scopes ++ scopes }
    match program.statementCount? with
    | none => (.error .malformed, workspace)
    | some _ => (.ok program, workspace)

/-- Loads a program under a file name that is not in use, and keeps its source if it is given. -/
def addTree (workspace : Workspace) (file : String) (source : Option String) (tree : Node) :
    Except Fault Node × Workspace :=
  if (workspace.program? file).isSome then (.error (.duplicateFile file), workspace)
  else if tree.kind ≠ .program then (.error (.unsupported .root tree.kind.name), workspace)
  else
    let sources :=
      match source with
      | some text => workspace.sources.insert file text
      | none => workspace.sources
    load { workspace with sources } file tree

def addParsed (workspace : Workspace) (file : SourceFile) (parsed : Parsed) :
    Except Fault Node × Workspace :=
  if (workspace.program? file.name).isSome then (.error (.duplicateFile file.name), workspace)
  else
    match parsed.result with
    | .error fault => (.error fault, workspace)
    | .ok program => workspace.addTree file.name (some file.text) program

def add (workspace : Workspace) (file : SourceFile) (tolerant : Bool) :
    Except Fault Node × Workspace :=
  workspace.addParsed file (file.parse tolerant)

def addData (workspace : Workspace) (file : String) (source : Option String) (data : Data) :
    Except Fault Node × Workspace :=
  if (workspace.program? file).isSome then (.error (.duplicateFile file), workspace)
  else
    match Node.ofData file source data with
    | .error fault => (.error fault, workspace)
    | .ok tree => workspace.addTree file source tree

def loadEvents (workspace : Workspace) (file : String) : List Event :=
  match workspace.program? file with
  | none => []
  | some program =>
    let names := ((workspace.scopes.env? program.address).map List.length).getD 0
    [.declared file names, .loaded file (program.node.statementCount?.getD 0)]

def token? (workspace : Workspace) (file : String) (offset : Data) : Option Occurrence :=
  (workspace.program? file).bind fun program => Node.nodeAtOffset? program offset

def classify (workspace : Workspace) (file : String) (offset : Data) :
    Except Fault (Option RenameKind) :=
  match workspace.token? file offset with
  | none => .ok none
  | some token => workspace.codebase.classify? token

def isLocalKind (kind : RenameKind) : Bool :=
  kind = .localVariable || kind = .label

def canRenameLocally (workspace : Workspace) (file : String) (offset : Data) :
    Except Fault (Option Bool) := do
  return (← workspace.classify file offset).map isLocalKind

def renameAt (workspace : Workspace) (file : String) (offset : Data) :
    Except Fault (Option Renaming) :=
  match workspace.token? file offset with
  | none => .ok none
  | some token => workspace.codebase.rename? token

def renameProperty (workspace : Workspace) (name : Name) : Except Fault Renaming :=
  workspace.codebase.renameProperty name

def ranges (workspace : Workspace) (outcome : Renaming) : Except Fault (List (List Location)) :=
  workspace.codebase.ranges outcome.groups

end Workspace

end Namesake
