import Namesake.Fault
import Namesake.Name
import Namesake.Node.Place

/-!
Programs, functions and catch clauses are scopes.  Names of functions and variables belong to the
nearest function or program around their declaration; a catch clause has its parameter only.  The
first declaration of a name counts.
-/

namespace Namesake

abbrev Env := List (Name × Address)

namespace Env

def find? (env : Env) (name : Name) : Option Address :=
  (List.find? (fun entry => entry.1.same name) env).map Prod.snd

def declares (env : Env) (name : Name) : Bool :=
  (env.find? name).isSome

def declare (env : Env) (name : Name) (address : Address) : Env :=
  if env.declares name then env else env ++ [(name, address)]

end Env

abbrev Scopes := List (Address × Env)

namespace Scopes

def env? (scopes : Scopes) (scope : Address) : Option Env :=
  scopes.lookup scope

def enter (scopes : Scopes) (scope : Address) (env : Env) : Scopes :=
  scopes ++ [(scope, env)]

def declare (scopes : Scopes) (scope : Address) (name : Name) (address : Address) : Scopes :=
  scopes.map fun entry =>
    if entry.1 = scope then (entry.1, entry.2.declare name address) else entry

def declares (scopes : Scopes) (scope : Address) (name : Name) : Bool :=
  match scopes.env? scope with
  | some env => env.declares name
  | none => false

end Scopes

def argumentsName : Name :=
  .text (Text.ofString "arguments")

namespace Field

def elements? : Field → Option (List Field)
  | .list items => some items
  | .data value => value.items?.map fun items => items.map .data
  | .node _ => none

def declaredName (field : Field) (address : Address) : Except Fault Name :=
  match field.nameValue? with
  | some value => .ok (.ofField address value)
  | none => .error .malformed

end Field

namespace Scopes

def parameters (function : Address) (field : Nat) :
    Nat → List Field → Env → Except Fault Env
  | _, [], env => .ok env
  | place, parameter :: rest, env => do
      let address := ⟨field, some place⟩ :: function
      let name ← parameter.declaredName address
      parameters function field (place + 1) rest (env.declare name address)

def functionEnv (function : Address) (params : Field) : Except Fault Env := do
  let some items := params.elements? | throw .malformed
  let env ← parameters function 1 0 items []
  return env.declare argumentsName function

/-- The scopes after the declarations of a node itself, and the scope in which the variables below
the node are declared. -/
def visit (scopes : Scopes) (scope address : Address) :
    Kind → List Field → Except Fault (Scopes × Address)
  | .program, _ => .ok (scopes.enter address [], address)
  | .functionDeclaration, id :: params :: _ => do
      let declaration := ⟨0, none⟩ :: address
      let scopes := scopes.declare scope (← id.declaredName declaration) declaration
      let env ← functionEnv address params
      return (scopes.enter address env, address)
  | .functionExpression, id :: params :: _ => do
      let env ← functionEnv address params
      if id.isNull then return (scopes.enter address env, address)
      else
        let declaration := ⟨0, none⟩ :: address
        let env := env.declare (← id.declaredName declaration) declaration
        return (scopes.enter address env, address)
  | .catchClause, param :: _ => do
      let declaration := ⟨0, none⟩ :: address
      return (scopes.enter address [(← param.declaredName declaration, declaration)], scope)
  | .variableDeclarator, id :: _ => do
      let declaration := ⟨0, none⟩ :: address
      return (scopes.declare scope (← id.declaredName declaration) declaration, scope)
  | _, _ => .ok (scopes, scope)

mutual

/-- The scopes after the declarations of a node and of all nodes below it, in the order of their
text. -/
def ofNode (scopes : Scopes) (scope address : Address) : Node → Except Fault Scopes
  | .mk kind fields _ => do
      let (scopes, inner) ← visit scopes scope address kind fields
      ofFields scopes inner address 0 fields

def ofFields (scopes : Scopes) (scope address : Address) (index : Nat) :
    List Field → Except Fault Scopes
  | [] => .ok scopes
  | field :: rest => do
      let scopes ← ofField scopes scope address index field
      ofFields scopes scope address (index + 1) rest

def ofField (scopes : Scopes) (scope address : Address) (index : Nat) :
    Field → Except Fault Scopes
  | .data _ => .ok scopes
  | .node child => ofNode scopes scope (⟨index, none⟩ :: address) child
  | .list items => ofItems scopes scope address index 0 items

def ofItems (scopes : Scopes) (scope address : Address) (index place : Nat) :
    List Field → Except Fault Scopes
  | [] => .ok scopes
  | .node child :: rest => do
      let scopes ← ofNode scopes scope (⟨index, some place⟩ :: address) child
      ofItems scopes scope address index (place + 1) rest
  | .data _ :: rest => ofItems scopes scope address index (place + 1) rest
  | .list _ :: rest => ofItems scopes scope address index (place + 1) rest

end

def ofProgram (program : Occurrence) : Except Fault Scopes :=
  ofNode [] program.address program.address program.node

def ofPrograms : List Occurrence → Except Fault Scopes
  | [] => .ok []
  | program :: rest => do
      let first ← ofProgram program
      return first ++ (← ofPrograms rest)

end Scopes

structure Codebase where
  root : Node
  scopes : Scopes

namespace Codebase

def ofRoot (root : Node) : Except Fault Codebase := do
  return ⟨root, ← Scopes.ofPrograms root.programs⟩

/-- The nodes in whose scopes the name of an identifier is looked up, the nearest first.  The name of
a function declaration belongs around the function. -/
def scopesAround (codebase : Codebase) (address : Address) : List Occurrence :=
  match codebase.root.around address, address with
  | parent :: rest, step :: _ =>
    if parent.node.kind = .functionDeclaration && parent.node.stepsTo "id" step then rest
    else parent :: rest
  | outer, _ => outer

def declaringScope? (codebase : Codebase) (address : Address) (name : Name) :
    Option Occurrence :=
  (codebase.scopesAround address).find? fun outer =>
    outer.node.kind.isScope && codebase.scopes.declares outer.address name

end Codebase

end Namesake
