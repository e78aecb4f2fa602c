import Namesake.Proofs.Scope.Declarations
import Namesake.Renaming

/-!
Every node of a tree demands some `Constraint`s on the types around it, whatever was visited
before.  `Entails` is the least equivalence of type names that follows from the constraints,
where equal types have equal properties.
-/

namespace Namesake

open Synthetic

inductive TypeName where
  | global
  | node (address : Address)
  | bound (scope : Address) (name : Text)
  | property (owner : TypeName) (name : Text)

inductive Constraint where
  | same (left right : TypeName)
  | marked (type : TypeName)
  /-- The types are those of an object and of the receiver of a method called on it. -/
  | method (base receiver : TypeName)

/-- How inference goes about a node. -/
inductive Use where
  | tree
  | statement
  | expression (unused : Bool)
  /-- A case of a `switch`, and whether the value of its test is unused. -/
  | clause (unused : Bool)
  | accessor
  | part

def Use.unused : Use → Bool
  | expression unused => unused
  | clause unused => unused
  | _ => true

namespace Field

def text? : Field → Option Text
  | .data (.text text) => some text
  | _ => none

def spelling? (field : Field) : Option Text :=
  field.nameValue?.bind text?

theorem spelling?_eq_some {field : Field} {name : Text} :
    field.spelling? = some name ↔
      ∃ location, field = .node (.mk .identifier [.data (.text name)] location) := by
  constructor
  · intro spelled
    obtain ⟨value, named, isText⟩ := Option.bind_eq_some_iff.1 spelled
    unfold nameValue? at named
    split at named
    · rename_i location
      cases named
      unfold text? at isText
      split at isText
      · cases isText
        exact ⟨location, rfl⟩
      · cases isText
    · cases named
  · rintro ⟨location, rfl⟩
    rfl

def keySpelling? (key : Field) : Option Text :=
  (Infer.keyName? key).bind text?

def isDeclaration : Field → Bool
  | .node child => child.kind = .variableDeclaration
  | _ => false

end Field

mutual

def Node.isPrimitive : Node → Bool
  | .mk .literal _ _ => true
  | .mk .identifier [name] _ => name.isWord "undefined"
  | .mk .unaryExpression _ _ => true
  | .mk .binaryExpression _ _ => true
  | .mk .updateExpression _ _ => true
  | .mk .assignmentExpression [operator, _, right] _ =>
    if operator.isWord "=" then right.isPrimitive else true
  | .mk .logicalExpression [operator, left, right] _ =>
    if operator.isWord "&&" then right.isPrimitive else left.isPrimitive && right.isPrimitive
  | .mk .conditionalExpression [_, consequent, alternate] _ =>
    consequent.isPrimitive && alternate.isPrimitive
  | .mk .sequenceExpression [.list items] _ => Field.lastIsPrimitive items
  | _ => false

def Field.isPrimitive : Field → Bool
  | .node child => child.isPrimitive
  | _ => false

def Field.lastIsPrimitive : List Field → Bool
  | [] => false
  | [last] => last.isPrimitive
  | _ :: second :: rest => Field.lastIsPrimitive (second :: rest)

end

namespace Node

/-- How inference goes about a child of a node.  Names that are not read as variables are passed over,
and so are the parameters of functions. -/
def useIn? (use : Use) (step : Step) : Node → Option Use
  | .mk .programCollection _ _ => some .tree
  | .mk .program _ _ => some .statement
  | .mk .blockStatement _ _ => some .statement
  | .mk .expressionStatement _ _ => some (.expression true)
  | .mk .ifStatement _ _ => some (if step.field = 0 then .expression true else .statement)
  | .mk .labeledStatement _ _ => if step.field = 1 then some .statement else none
  | .mk .withStatement _ _ => some (if step.field = 0 then .expression false else .statement)
  | .mk .switchStatement (discriminant :: _) _ =>
    some (if step.field = 0 then .expression false else .clause discriminant.isPrimitive)
  | .mk .switchCase _ _ => some (if step.field = 0 then .expression use.unused else .statement)
  | .mk .returnStatement _ _ => some (.expression false)
  | .mk .throwStatement _ _ => some (.expression true)
  | .mk .tryStatement _ _ => some .statement
  | .mk .catchClause _ _ => if step.field = 1 then some .statement else none
  | .mk .whileStatement _ _ => some (if step.field = 0 then .expression true else .statement)
  | .mk .doWhileStatement _ _ => some (if step.field = 0 then .statement else .expression true)
  | .mk .forStatement (init :: _) _ =>
    if step.field = 0 then some (if init.isDeclaration then .statement else .expression true)
    else some (if step.field = 3 then .statement else .expression true)
  | .mk .forInStatement (left :: _) _ =>
    if step.field = 0 then some (if left.isDeclaration then .statement else .expression true)
    else some (if step.field = 1 then .expression false else .statement)
  | .mk .functionDeclaration _ _ => if step.field = 2 then some .statement else none
  | .mk .functionExpression _ _ => if step.field = 2 then some .statement else none
  | .mk .variableDeclaration _ _ => some .part
  | .mk .variableDeclarator _ _ => if step.field = 1 then some (.expression false) else none
  | .mk .arrayExpression _ _ => some (.expression false)
  | .mk .objectExpression _ _ => some .part
  | .mk .property [_, _, kind] _ =>
    if step.field = 1 then some (if kind.isWord "init" then .expression false else .accessor)
    else none
  | .mk .sequenceExpression [.list items] _ =>
    some (.expression (if step.item = some (items.length - 1) then use.unused else true))
  | .mk .unaryExpression _ _ => some (.expression true)
  | .mk .updateExpression _ _ => some (.expression true)
  | .mk .binaryExpression _ _ => some (.expression true)
  | .mk .assignmentExpression _ _ => some (.expression false)
  | .mk .logicalExpression (operator :: _) _ =>
    some (.expression (if step.field = 1 && operator.isWord "&&" then true else use.unused))
  | .mk .conditionalExpression _ _ =>
    some (.expression (if step.field = 0 then true else use.unused))
  | .mk .callExpression _ _ => some (.expression false)
  | .mk .newExpression _ _ => some (.expression false)
  | .mk .memberExpression [_, _, computed] _ =>
    if step.field = 0 then some (.expression false)
    else if computed.isTruthy then some (.expression true) else none
  | _ => none

/-- How inference goes about the node at an address, if it gets there. -/
def use? (root : Node) : Address → Option Use
  | [] => some .tree
  | step :: rest => (root.use? rest).bind fun use =>
    (root.at? rest).bind fun parent => parent.useIn? use step

end Node

/-- Whether a scope binds a name while types are inferred: one that it declares, or in a function the
receiver or the result. -/
def Occurrence.binds (scope : Occurrence) (name : Text) : Bool :=
  (scope.node.kind.isFunction && (name = Synthetic.receiver || name = result)) ||
    scope.declarations.any fun declaration => declaration.1.same (.text name)

theorem Occurrence.binds_iff {scope : Occurrence} {name : Text} :
    scope.binds name = true ↔
      (scope.node.kind.isFunction = true ∧ (name = Synthetic.receiver ∨ name = result)) ∨
        ∃ address, (.text name, address) ∈ scope.declarations := by
  simp [binds, Name.same_text]

namespace Node

def shadowing (root : Node) (address : Address) : List Occurrence :=
  (root.above address).filter fun outer => outer.node.isShadowing

def resolve (root : Node) (address : Address) (name : Text) : TypeName :=
  match (root.shadowing address).find? fun scope => scope.binds name with
  | some scope => .bound scope.address name
  | none => if name = Synthetic.receiver then .global else .property .global name

end Node

namespace Constraint

open Infer

def named (name : Option Text) (demand : Text → List Constraint) : List Constraint :=
  name.elim [] demand

def ofParameters (function : Address) : Nat → List Field → List Constraint
  | _, [] => []
  | place, parameter :: rest =>
    named parameter.spelling? (fun name =>
      [same (.node (inItem function 1 place)) (.bound function name)]) ++
    ofParameters function (place + 1) rest

def ofFunction (function : Address) (params : Field) : List Constraint :=
  ofParameters function 0 (listed params) ++
    [ same (.property (.node function) Synthetic.receiver) (.bound function Synthetic.receiver),
      same (.property (.node function) result) (.bound function result) ]

/-- The name of a function expression stands for the function itself. -/
def ofOwnName (function : Address) (id : Field) : List Constraint :=
  named id.spelling? fun name =>
    [ same (.node function) (.bound function name),
      same (.node (inField function 0)) (.node function) ]

def ofElements (array : Address) : Nat → List Field → List Constraint
  | _, [] => []
  | place, item :: rest =>
    (if item.isNull then []
      else [same (.property (.node array) element) (.node (inItem array 0 place))]) ++
    ofElements array (place + 1) rest

def ofAccessor (owner : TypeName) (function : Address) (isGetter : Bool) (value : Field)
    (name : Text) : List Constraint :=
  (if isGetter then [same (.property owner name) (.bound function result)] else
      match value with
      | .node (.mk _ [_, .list (parameter :: _), _] _) =>
        named parameter.spelling? fun bound =>
          [same (.property owner name) (.bound function bound)]
      | _ => []) ++
  [same owner (.bound function Synthetic.receiver)]

def ofProperties (object : Address) : Nat → List Field → List Constraint
  | place, .node (.mk .property [key, value, kind] _) :: rest =>
    named key.keySpelling? (fun name =>
      let inner := inField (inItem object 0 place) 1
      if kind.isWord "init" then [same (.property (.node object) name) (.node inner)]
      else ofAccessor (.node object) inner (kind.isWord "get") value name) ++
    ofProperties object (place + 1) rest
  | _, _ => []

/-- A constructor is a namespace, and so is the object that it is read from. -/
def ofConstructor (address : Address) (field : Field) : List Constraint :=
  marked (.node address) :: match field with
    | .node (.mk .memberExpression (_ :: _) _) => [marked (.node (inField address 0))]
    | _ => []

def ofArguments (call function : Address) : Nat → List Field → List Field → List Constraint
  | place, _ :: arguments, parameter :: parameters =>
    named parameter.spelling? (fun name =>
      [same (.node (inItem call 1 place)) (.bound function name)]) ++
    ofArguments call function (place + 1) arguments parameters
  | _, _, _ => []

/-- A function that is called right where it stands gives its result to the call and has the global
object or the new one as receiver.  Any other constructor gives its receiver to the call. -/
def ofCallee (call : Address) (isNew : Bool) (callee arguments : Field) : List Constraint :=
  let function := inField call 0
  match callee with
  | .node (.mk .functionExpression (_ :: params :: _) _) =>
    ofArguments call function 0 (listed arguments) (listed params) ++
      [ same (.node call) (.bound function result),
        same (.bound function Synthetic.receiver) (if isNew then .node call else .global) ]
  | _ =>
    if isNew then
      [same (.node call) (.property (.node function) Synthetic.receiver)]
    else []

def ofMethod (function : Address) (callee : Field) : List Constraint :=
  match callee with
  | .node (.mk .memberExpression (_ :: _) _) =>
    [ method (.node (inField function 0)) (.property (.node function) Synthetic.receiver) ]
  | _ => []

def ofCall (call : Address) (isNew : Bool) (callee arguments : Field) : List Constraint :=
  ofCallee call isNew callee arguments ++ (ofMethod (inField call 0) callee ++
      if isNew then ofConstructor (inField call 0) callee else [])

def memberName? (property : Field) (computed : Bool) : Option Text :=
  (if computed then stringIn? property else property.nameValue?).bind Field.text?

/-- A member is a property of its object.  A key that is not known remembers the object. -/
def ofMember (member : Address) (object property : Field) (computed : Bool) : List Constraint :=
  match memberName? property computed with
  | none =>
    [same (.property (.node (inField member 1)) Synthetic.owner) (.node (inField member 0))]
  | some name =>
    same (.node member) (.property (.node (inField member 0)) name) ::
      if name = Text.ofString "prototype" then ofConstructor (inField member 0) object else []

end Constraint

namespace Node

open Infer Constraint

/-- What a node demands where names stand for given types.  A type that equals itself is demanded to
be there. -/
def constraints (lookup : Text → TypeName) (use : Use) (address : Address) :
    Node → List Constraint
  | .mk .returnStatement [.node _] _ =>
    [same (.node (inField address 0)) (lookup result)]
  | .mk .catchClause [param, _] _ =>
    named param.spelling? fun name =>
      [same (.node (inField address 0)) (.bound address name)]
  | .mk .functionDeclaration [id, params, _] _ =>
    ofFunction address params ++ named id.spelling? fun name => [same (.node address) (lookup name)]
  | .mk .variableDeclarator [id, init] _ =>
    named id.spelling? fun name =>
      (if !init.isNull && !init.isPrimitive then
        [same (lookup name) (.node (inField address 1))] else []) ++
      [same (.node (inField address 0)) (lookup name)]
  | .mk .functionExpression [id, params, _] _ =>
    (match use with
    | .accessor => []
    | _ => ofOwnName address id) ++
    ofFunction address params
  | .mk .thisExpression _ _ => [same (.node address) (lookup Synthetic.receiver)]
  | .mk .arrayExpression [.list items] _ =>
    same (.property (.node address) element) (.property (.node address) element)
      :: ofElements address 0 items
  | .mk .objectExpression [.list items] _ =>
    same (.node address) (.node address) :: ofProperties address 0 items
  | .mk .sequenceExpression [.list items] _ =>
    [same (.node address) (.node (inItem address 0 (items.length - 1)))]
  | .mk .assignmentExpression [operator, _, right] _ =>
    if operator.isWord "=" && !right.isPrimitive then
      [ same (.node address) (.node (inField address 1)),
        same (.node address) (.node (inField address 2)) ]
    else []
  | .mk .logicalExpression [operator, _, _] _ =>
    if operator.isWord "&&" then [same (.node address) (.node (inField address 2))]
    else if use.unused then []
    else
      [ same (.node address) (.node (inField address 1)),
        same (.node address) (.node (inField address 2)) ]
  | .mk .conditionalExpression [_, _, _] _ =>
    if use.unused then []
    else
      [ same (.node address) (.node (inField address 1)),
        same (.node address) (.node (inField address 2)) ]
  | .mk .callExpression [callee, arguments] _ => ofCall address false callee arguments
  | .mk .newExpression [callee, arguments] _ => ofCall address true callee arguments
  | .mk .memberExpression [object, property, computed] _ =>
    ofMember address object property computed.isTruthy
  | .mk .identifier [name] _ =>
    if name.isWord "undefined" then []
    else named name.text? fun name => [same (.node address) (lookup name)]
  | _ => []

def constraintsAt (root : Node) (place : Occurrence) : List Constraint :=
  (root.use? place.address).elim [] fun use =>
    place.node.constraints (root.resolve place.address) use place.address

def Demands (root : Node) (constraint : Constraint) : Prop :=
  ∃ place : Occurrence, place.IsIn root ∧ constraint ∈ root.constraintsAt place

theorem demands_of_mem {root : Node} {place : Occurrence} (inside : place.IsIn root) {use : Use}
    (used : root.use? place.address = some use) {constraint : Constraint}
    (member : constraint ∈ place.node.constraints (root.resolve place.address) use place.address) :
    root.Demands constraint := by
  refine ⟨place, inside, ?_⟩
  rw [constraintsAt, used]
  exact member

end Node

def TypeName.nodes : TypeName → List Address
  | global => []
  | node address => [address]
  | bound _ _ => []
  | property owner _ => owner.nodes

def Constraint.nodes : Constraint → List Address
  | same left right => left.nodes ++ right.nodes
  | marked type => type.nodes
  | method base receiver => base.nodes ++ receiver.nodes

def Constraint.types : Constraint → List TypeName
  | same left right => [left, right]
  | marked type => [type]
  | method base receiver => [base, receiver]

attribute [simp] TypeName.nodes Constraint.nodes Constraint.types

section Consequences

variable (constraints : Constraint → Prop)

def Mentions (address : Address) : Prop :=
  ∃ constraint, constraints constraint ∧ address ∈ constraint.nodes

def Requests (type : TypeName) : Prop :=
  ∃ constraint, constraints constraint ∧ type ∈ constraint.types

/-- The least equivalence of types that follows from constraints, where equal types have equal
properties. -/
inductive Entails : TypeName → TypeName → Prop where
  | refl (type : TypeName) : Entails type type
  | symm {left right : TypeName} : Entails left right → Entails right left
  | trans {left middle right : TypeName} : Entails left middle → Entails middle right →
      Entails left right
  | given {left right : TypeName} : constraints (.same left right) → Entails left right
  | property {left right : TypeName} (name : Text) : Entails left right →
      Entails (.property left name) (.property right name)

def IsNamespace (type : TypeName) : Prop :=
  ∃ other, constraints (.marked other) ∧ Entails constraints other type

/-- The constraints together with the receivers of methods: the receiver has the type of the object
unless one of the two is a namespace. -/
def WithReceivers (constraint : Constraint) : Prop :=
  constraints constraint ∨ ∃ base receiver, constraint = .same base receiver ∧
    constraints (.method base receiver) ∧
    ¬ IsNamespace constraints base ∧ ¬ IsNamespace constraints receiver

end Consequences

theorem Entails.mono {constraints more : Constraint → Prop}
    (implies : ∀ constraint, constraints constraint → more constraint) {left right : TypeName}
    (entails : Entails constraints left right) : Entails more left right := by
  induction entails with
  | refl type => exact .refl type
  | symm _ ih => exact ih.symm
  | trans _ _ first second => exact first.trans second
  | given member => exact .given (implies _ member)
  | property name _ ih => exact .property name ih

end Namesake
