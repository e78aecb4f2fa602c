import Namesake.Inference
import Namesake.Node.Gather
import Namesake.Usage

/-!
Tokens belong together if they have to be renamed together.  There are four cases.

* A variable of a function or a catch clause: the search goes through its scope and leaves out
  inner scopes that declare the name again.
* A global variable: every program, and also the properties of the global object.
* A label: the statement that it labels, without inner functions.
* A property: every program, with a group for each type of the object that has the property.

Only the second and the last case need types.
-/

namespace Namesake

inductive RenameKind where
  | localVariable
  | globalVariable
  | property
  | label
deriving DecidableEq

def RenameKind.name : RenameKind → String
  | localVariable => "local"
  | globalVariable => "global"
  | property => "property"
  | label => "label"

structure Renaming where
  kind : RenameKind
  name : Name
  groups : List (List Occurrence)
  inference : Option Inference := none

namespace Node

/-- Whether a node can be in between a name and its declaration. -/
def isShadowing (node : Node) : Bool :=
  node.kind.isFunction || node.kind = .catchClause

end Node

namespace Occurrence

def declaredName (place : Occurrence) (name : Name) : List Occurrence :=
  if place.node.kind = .functionDeclaration then
    (place.child? "id").toList.filter fun id => id.isNamed name
  else []

end Occurrence

namespace Codebase

/-- The place of a token to rename.  The quotes of a string do not belong to it. -/
def rangeOf (codebase : Codebase) (token : Occurrence) : Except Fault Location :=
  let file := (codebase.root.fileOf? token).getD ""
  let quotes := if token.node.kind = .literal then 1 else 0
  let range := do
    let location ← token.node.location
    location.narrow? (if file = "" then location.file else file) quotes
  match range with
  | some range => .ok range
  | none => .error .malformed

def groupRanges (codebase : Codebase) : List Occurrence → Except Fault (List Location)
  | [] => .ok []
  | token :: rest => do
      let first ← codebase.rangeOf token
      return first :: (← codebase.groupRanges rest)

def ranges (codebase : Codebase) : List (List Occurrence) → Except Fault (List (List Location))
  | [] => .ok []
  | group :: rest => do
      let first ← codebase.groupRanges group
      return first :: (← codebase.ranges rest)

def namesVariable (codebase : Codebase) (token : Occurrence) : Bool :=
  match codebase.root.usage? token with
  | .ok (some ⟨.variable, _⟩) => true
  | _ => false

/-- The search for a local variable.  The name of a function that declares the name again for itself
still belongs to the scope around the function. -/
def lookForLocal (codebase : Codebase) (name : Name) (_ : Unit) (place : Occurrence) :
    Look Unit Occurrence :=
  if place.node.kind = .identifier then
    let found := if place.isNamed name && codebase.namesVariable place then [place] else []
    { found, below := some () }
  else if place.node.isShadowing && codebase.scopes.declares place.address name then
    { found := place.declaredName name }
  else { below := some () }

/-- Where the search for the variables of a scope starts.  The name of a function declaration belongs
around the function. -/
def searchStarts (scope : Occurrence) : List Occurrence :=
  scope.children.filter fun child =>
    !(scope.node.kind = .functionDeclaration &&
      child.address = scope.node.stepTo "id" :: scope.address)

def localGroup (codebase : Codebase) (scope : Occurrence) (name : Name) : List Occurrence :=
  (searchStarts scope).flatMap (Occurrence.gather (codebase.lookForLocal name) ())

def isGlobalScope : Option Occurrence → Bool
  | none => true
  | some scope => scope.node.kind = .program

def renameLocal (codebase : Codebase) (token : Occurrence) : Except Fault Renaming :=
  match token.name? with
  | none => .error .malformed
  | some name =>
    match codebase.declaringScope? token.address name with
    | none => .error (.notLocal name.value)
    | some scope =>
      if scope.node.kind = .program then .error (.notLocal name.value)
      else .ok { kind := .localVariable, name, groups := [codebase.localGroup scope name] }

inductive Candidate where
  | variable (token : Occurrence)
  | property (token : Occurrence) (base : Option Occurrence)

/-- The search for a global variable remembers whether an inner scope declares the name. -/
def lookForGlobal (codebase : Codebase) (name : Name) (shadowed : Bool) (place : Occurrence) :
    Look Bool Candidate :=
  if place.node.kind = .identifier || place.node.kind = .literal then
    let found :=
      match codebase.root.usage? place with
      | .ok (some ⟨role, own⟩) =>
        if own.equals name then
          match role with
          | .variable => if shadowed then [] else [.variable place]
          | .property base => [.property place base]
          | .label => []
        else []
      | _ => []
    { found, below := some shadowed }
  else if place.node.isShadowing && codebase.scopes.declares place.address name then
    { found := if shadowed then [] else (place.declaredName name).map .variable,
      below := some true }
  else { below := some shadowed }

def baseType : Option Occurrence → Infer TypeId
  | none => throw .malformed
  | some base => Infer.typeAt base.address

def baseRepresentative (base : Option Occurrence) : Infer TypeId := do
  let type ← baseType base
  return (← get).graph.root type

def isGlobalObject (representative : TypeId) : Infer Bool := do
  return representative = (← get).graph.root Typing.globalType

def globalTokens : List Candidate → Infer (List Occurrence)
  | [] => return []
  | .variable token :: rest => do return token :: (← globalTokens rest)
  | .property token base :: rest => do
      let isGlobal ← isGlobalObject (← baseRepresentative base)
      let others ← globalTokens rest
      return if isGlobal then token :: others else others

def globalGroup (codebase : Codebase) (name : Name) : Infer (List Occurrence) :=
  globalTokens (codebase.root.gather (codebase.lookForGlobal name) false [])

def isLabelled (name : Name) (place : Occurrence) : Bool :=
  place.node.kind = .labeledStatement && ((place.child? "label").map (·.isNamed name)).getD false

/-- The statement that a label stands for.  A label does not reach out of its function. -/
def labelled? (name : Name) : List Occurrence → Option Occurrence
  | [] => none
  | place :: rest =>
    if isLabelled name place then some place
    else if place.node.kind.isFunction || place.node.kind = .program then none
    else labelled? name rest

def labelDeclaration? (codebase : Codebase) (token : Occurrence) (name : Name) :
    Option Occurrence :=
  labelled? name (codebase.root.around token.address)

def lookForJumps (name : Name) (_ : Unit) (place : Occurrence) : Look Unit Occurrence :=
  if isLabelled name place || place.node.kind.isFunction then { }
  else if place.node.kind = .breakStatement || place.node.kind = .continueStatement then
    { found := (place.child? "label").toList.filter fun label => label.isNamed name,
      below := some () }
  else { below := some () }

/-- The group of a label.  A label that nothing declares is looked for in the whole function. -/
def labelGroup (codebase : Codebase) (token : Occurrence) (name : Name) : List Occurrence :=
  match codebase.labelDeclaration? token name with
  | some statement =>
    (statement.child? "label").toList ++
      (statement.child? "body").toList.flatMap (Occurrence.gather (lookForJumps name) ())
  | none =>
    ((codebase.root.enclosingFunction? token.address).toList.flatMap Occurrence.children).flatMap
      (Occurrence.gather (lookForJumps name) ())

def renameLabel (codebase : Codebase) (token : Occurrence) : Except Fault Renaming :=
  match token.name? with
  | none => .error .malformed
  | some name => .ok { kind := .label, name, groups := [codebase.labelGroup token name] }

def lookForProperty (codebase : Codebase) (name : Name) (_ : Unit) (place : Occurrence) :
    Look Unit (Occurrence × Option Occurrence) :=
  let found :=
    match codebase.root.usage? place with
    | .ok (some ⟨.property base, own⟩) => if own.equals name then [(place, base)] else []
    | _ => []
  { found, below := some () }

/-- Each token with the type of the object that the property belongs to; the properties of the global
object are left out. -/
def typedTokens : List (Occurrence × Option Occurrence) → Infer (List (TypeId × Occurrence))
  | [] => return []
  | (token, base) :: rest => do
      let type ← baseRepresentative base
      let isGlobal ← isGlobalObject type
      let others ← typedTokens rest
      return if isGlobal then others else (type, token) :: others

/-- Tokens with the same type together, in the order of the types. -/
def groupByType (tokens : List (TypeId × Occurrence)) : List (List Occurrence) :=
  let types := ((tokens.map Prod.fst).mergeSort (· ≤ ·)).eraseDups
  types.map fun type => (tokens.filter fun token => token.1 = type).map Prod.snd

def propertyGroups (codebase : Codebase) (name : Name) : Infer (List (List Occurrence)) := do
  return groupByType (← typedTokens (codebase.root.gather (codebase.lookForProperty name) () []))

def renameGlobalWith (codebase : Codebase) (inference : Inference) (typing : Typing)
    (name : Name) : Except Fault Renaming := do
  let (group, _) ← (codebase.globalGroup name).run typing
  return { kind := .globalVariable, name, groups := [group], inference := some inference }

def renamePropertyWith (codebase : Codebase) (inference : Inference) (typing : Typing)
    (name : Name) : Except Fault Renaming := do
  let (groups, _) ← (codebase.propertyGroups name).run typing
  return { kind := .property, name, groups, inference := some inference }

def renameGlobal (codebase : Codebase) (name : Name) : Except Fault Renaming := do
  let inference ← codebase.infer
  codebase.renameGlobalWith inference inference.typing name

def renameProperty (codebase : Codebase) (name : Name) : Except Fault Renaming := do
  let inference ← codebase.infer
  codebase.renamePropertyWith inference inference.typing name

def isGlobalProperty (inference : Inference) (base : Option Occurrence) :
    Except Fault (Bool × Typing) :=
  (do isGlobalObject (← baseRepresentative base) : Infer Bool).run inference.typing

def rename? (codebase : Codebase) (token : Occurrence) : Except Fault (Option Renaming) := do
  match ← codebase.root.usage? token with
  | none => return none
  | some ⟨.label, _⟩ => return some (← codebase.renameLabel token)
  | some ⟨.variable, name⟩ =>
    if isGlobalScope (codebase.declaringScope? token.address name) then
      return some (← codebase.renameGlobal name)
    else return some (← codebase.renameLocal token)
  | some ⟨.property base, name⟩ =>
    let inference ← codebase.infer
    let (isGlobal, typing) ← isGlobalProperty inference base
    if isGlobal then return some (← codebase.renameGlobalWith inference typing name)
    else return some (← codebase.renamePropertyWith inference typing name)

/-- What a token names, if it names anything.  A property of the global object is a global
variable. -/
def classify? (codebase : Codebase) (token : Occurrence) : Except Fault (Option RenameKind) := do
  match ← codebase.root.usage? token with
  | none => return none
  | some ⟨.label, _⟩ => return some .label
  | some ⟨.variable, name⟩ =>
    if isGlobalScope (codebase.declaringScope? token.address name) then
      return some .globalVariable
    else return some .localVariable
  | some ⟨.property base, _⟩ =>
    let (isGlobal, _) ← isGlobalProperty (← codebase.infer) base
    return some (if isGlobal then .globalVariable else .property)

end Codebase

end Namesake
