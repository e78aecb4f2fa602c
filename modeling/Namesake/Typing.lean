import Namesake.Scope
import Namesake.TypeGraph

/-!
While types are inferred, a `Typing` holds the type graph, the types of the nodes reached so far,
and an environment for each function and catch clause around the current node.  A name that no
environment binds is a property of the global object.
-/

namespace Namesake

namespace Synthetic

def receiver : Text :=
  Text.ofString "@this"

def result : Text :=
  Text.ofString "@return"

def element : Text :=
  Text.ofString "@array"

def owner : Text :=
  Text.ofString "@prty-of"

end Synthetic

abbrev TypeEnv := List (Text × TypeId)

structure Typing where
  graph : TypeGraph
  types : List (Address × TypeId) := []
  stack : List TypeEnv
  envs : List (Address × TypeEnv) := []
  methods : List (TypeId × TypeId) := []

namespace Typing

/-- The type of the global object, which is the first node of the graph. -/
def globalType : TypeId :=
  0

def start : Typing :=
  { graph := TypeGraph.empty.newNode.2, stack := [[(Synthetic.receiver, globalType)]] }

def type? (typing : Typing) (address : Address) : Option TypeId :=
  typing.types.lookup address

def env? (typing : Typing) (scope : Address) : Option TypeEnv :=
  typing.envs.lookup scope

end Typing

abbrev Infer := StateT Typing (Except Fault)

namespace Infer

def onGraph {α : Type} (step : TypeGraph → α × TypeGraph) : Infer α :=
  modifyGet fun typing =>
    let (result, graph) := step typing.graph
    (result, { typing with graph })

def newType : Infer TypeId :=
  onGraph TypeGraph.newNode

def property (type : TypeId) (name : Text) : Infer TypeId :=
  onGraph fun graph => graph.property type name

def propertyNamed (type : TypeId) : Field → Infer TypeId
  | .data (.text name) => property type name
  | name => throw (.nameNotText name)

def unify (left right : TypeId) : Infer Unit :=
  onGraph fun graph => ((), graph.unify left right)

def markNamespace (type : TypeId) : Infer Unit :=
  onGraph fun graph => ((), graph.markNamespace type)

def setType (address : Address) (type : TypeId) : Infer Unit :=
  modify fun typing => { typing with types := (address, type) :: typing.types }

def typeAt (address : Address) : Infer TypeId := do
  match (← get).type? address with
  | some type => return type
  | none =>
    let type ← newType
    setType address type
    return type

def typeOf (address : Address) : Field → Infer TypeId
  | .node _ => typeAt address
  | _ => throw .malformed

def variableNamed (name : Text) : Infer TypeId := do
  match (← get).stack.findSome? fun env => env.lookup name with
  | some type => return type
  | none => property Typing.globalType name

def variableType : Field → Infer TypeId
  | .data (.text name) => variableNamed name
  | name => throw (.nameNotText name)

def bindText (name : Text) : Infer TypeId := do
  match (← get).stack with
  | [] => throw .malformed
  | env :: outer =>
    match env.lookup name with
    | some type => return type
    | none =>
      let type ← newType
      modify fun typing => { typing with stack := (env ++ [(name, type)]) :: outer }
      return type

def bindName : Field → Infer TypeId
  | .data (.text name) => bindText name
  | name => throw (.nameNotText name)

def enterScope : Infer Unit :=
  modify fun typing => { typing with stack := [] :: typing.stack }

def leaveScope (scope : Address) : Infer Unit :=
  modify fun typing =>
    match typing.stack with
    | [] => typing
    | env :: outer => { typing with stack := outer, envs := (scope, env) :: typing.envs }

def boundIn (scope : Address) (name : Text) : Infer TypeId := do
  match ((← get).env? scope).bind fun env => env.lookup name with
  | some type => return type
  | none => throw .malformed

def addMethod (base receiver : TypeId) : Infer Unit :=
  modify fun typing => { typing with methods := typing.methods ++ [(base, receiver)] }

end Infer

end Namesake
