import Namesake.Location

/-!
A node has a kind, a location and a field for each attribute of its kind, in the order of
`Kind.attributes`.  Trees that are loaded from outside may hold anything in any field, so no shape is
built into the type.  An `Address` names a place in a tree by the steps that lead there, the last
step first.
-/

namespace Namesake

inductive Kind where
  | program
  | programCollection
  | emptyStatement
  | blockStatement
  | expressionStatement
  | ifStatement
  | labeledStatement
  | breakStatement
  | continueStatement
  | withStatement
  | switchStatement
  | switchCase
  | returnStatement
  | throwStatement
  | tryStatement
  | catchClause
  | whileStatement
  | doWhileStatement
  | forStatement
  | forInStatement
  | debuggerStatement
  | functionDeclaration
  | variableDeclaration
  | variableDeclarator
  | thisExpression
  | arrayExpression
  | objectExpression
  | property
  | functionExpression
  | sequenceExpression
  | unaryExpression
  | binaryExpression
  | assignmentExpression
  | updateExpression
  | logicalExpression
  | conditionalExpression
  | callExpression
  | newExpression
  | memberExpression
  | identifier
  | literal
deriving DecidableEq, Inhabited

mutual

inductive Node where
  | mk (kind : Kind) (fields : List Field) (location : Option Location)

inductive Field where
  | data (value : Data)
  | node (node : Node)
  | list (items : List Field)

end

instance : Inhabited Field := ⟨.data .null⟩

instance : Inhabited Node := ⟨.mk .emptyStatement [] none⟩

structure Attribute where
  name : String
  /-- What the field holds where nothing is given; `none` if something should be. -/
  fallback : Option Field := none

namespace Kind

def all : List Kind :=
  [ program, programCollection, emptyStatement, blockStatement, expressionStatement, ifStatement,
    labeledStatement, breakStatement, continueStatement, withStatement, switchStatement, switchCase,
    returnStatement, throwStatement, tryStatement, catchClause, whileStatement, doWhileStatement,
    forStatement, forInStatement, debuggerStatement, functionDeclaration, variableDeclaration,
    variableDeclarator, thisExpression, arrayExpression, objectExpression, property,
    functionExpression, sequenceExpression, unaryExpression, binaryExpression, assignmentExpression,
    updateExpression, logicalExpression, conditionalExpression, callExpression, newExpression,
    memberExpression, identifier, literal ]

def name : Kind → String
  | program => "Program"
  | programCollection => "ProgramCollection"
  | emptyStatement => "EmptyStatement"
  | blockStatement => "BlockStatement"
  | expressionStatement => "ExpressionStatement"
  | ifStatement => "IfStatement"
  | labeledStatement => "LabeledStatement"
  | breakStatement => "BreakStatement"
  | continueStatement => "ContinueStatement"
  | withStatement => "WithStatement"
  | switchStatement => "SwitchStatement"
  | switchCase => "SwitchCase"
  | returnStatement => "ReturnStatement"
  | throwStatement => "ThrowStatement"
  | tryStatement => "TryStatement"
  | catchClause => "CatchClause"
  | whileStatement => "WhileStatement"
  | doWhileStatement => "DoWhileStatement"
  | forStatement => "ForStatement"
  | forInStatement => "ForInStatement"
  | debuggerStatement => "DebuggerStatement"
  | functionDeclaration => "FunctionDeclaration"
  | variableDeclaration => "VariableDeclaration"
  | variableDeclarator => "VariableDeclarator"
  | thisExpression => "ThisExpression"
  | arrayExpression => "ArrayExpression"
  | objectExpression => "ObjectExpression"
  | property => "Property"
  | functionExpression => "FunctionExpression"
  | sequenceExpression => "SequenceExpression"
  | unaryExpression => "UnaryExpression"
  | binaryExpression => "BinaryExpression"
  | assignmentExpression => "AssignmentExpression"
  | updateExpression => "UpdateExpression"
  | logicalExpression => "LogicalExpression"
  | conditionalExpression => "ConditionalExpression"
  | callExpression => "CallExpression"
  | newExpression => "NewExpression"
  | memberExpression => "MemberExpression"
  | identifier => "Identifier"
  | literal => "Literal"

def required (name : String) : Attribute :=
  { name }

def optional (name : String) (fallback : Data) : Attribute :=
  { name, fallback := some (.data fallback) }

def attributes : Kind → List Attribute
  | program => [required "body", optional "file" (.ofString "")]
  | programCollection => [{ name := "programs", fallback := some (.list []) }]
  | emptyStatement => []
  | blockStatement => [required "body"]
  | expressionStatement => [required "expression"]
  | ifStatement => [required "test", required "consequent", optional "alternate" .null]
  | labeledStatement => [required "label", required "body"]
  | breakStatement => [optional "label" .null]
  | continueStatement => [optional "label" .null]
  | withStatement => [required "object", required "body"]
  | switchStatement => [required "discriminant", required "cases"]
  | switchCase => [required "test", required "consequent"]
  | returnStatement => [optional "argument" .null]
  | throwStatement => [required "argument"]
  | tryStatement => [required "block", optional "handler" .null, optional "finalizer" .null]
  | catchClause => [required "param", required "body"]
  | whileStatement => [required "test", required "body"]
  | doWhileStatement => [required "body", required "test"]
  | forStatement => [required "init", required "test", required "update", required "body"]
  | forInStatement => [required "left", required "right", required "body"]
  | debuggerStatement => []
  | functionDeclaration => [required "id", required "params", required "body"]
  | variableDeclaration => [required "declarations", optional "kind" (.ofString "var")]
  | variableDeclarator => [required "id", optional "init" .null]
  | thisExpression => []
  | arrayExpression => [required "elements"]
  | objectExpression => [required "properties"]
  | property => [required "key", required "value", optional "kind" (.ofString "init")]
  | functionExpression => [required "id", required "params", required "body"]
  | sequenceExpression => [required "expressions"]
  | unaryExpression => [required "operator", required "argument", optional "prefix" (.bool true)]
  | binaryExpression => [required "operator", required "left", required "right"]
  | assignmentExpression => [required "operator", required "left", required "right"]
  | updateExpression => [required "operator", required "argument", required "prefix"]
  | logicalExpression => [required "operator", required "left", required "right"]
  | conditionalExpression => [required "test", required "consequent", required "alternate"]
  | callExpression => [required "callee", required "arguments"]
  | newExpression => [required "callee", required "arguments"]
  | memberExpression => [required "object", required "property", optional "computed" (.bool false)]
  | identifier => [required "name"]
  | literal => [required "value", optional "raw" (.ofString ""), optional "regex" .null]

def isFunction (kind : Kind) : Bool :=
  kind = functionDeclaration || kind = functionExpression

def isScope (kind : Kind) : Bool :=
  kind = program || kind.isFunction || kind = catchClause

end Kind

namespace Field

def node? : Field → Option Node
  | .node child => some child
  | _ => none

def data? : Field → Option Data
  | .data value => some value
  | _ => none

def isNull : Field → Bool
  | .data .null => true
  | _ => false

def isTruthy : Field → Bool
  | .data value => value.isTruthy
  | .node _ => true
  | .list items => !items.isEmpty

end Field

structure Step where
  field : Nat
  item : Option Nat
deriving DecidableEq, Hashable, Inhabited

/-- A place in a tree: the steps from its root, the last one first. -/
abbrev Address := List Step

namespace Node

def kind : Node → Kind
  | .mk kind _ _ => kind

def fields : Node → List Field
  | .mk _ fields _ => fields

def location : Node → Option Location
  | .mk _ _ location => location

def field? (node : Node) (name : String) : Option Field :=
  (node.kind.attributes.zip node.fields).findSome? fun (entry, field) =>
    if entry.name = name then some field else none

def nodeAt? (node : Node) (name : String) : Option Node :=
  (node.field? name).bind Field.node?

def dataAt? (node : Node) (name : String) : Option Data :=
  (node.field? name).bind Field.data?

def child? (node : Node) (step : Step) : Option Node :=
  match node.fields[step.field]?, step.item with
  | some (.node child), none => some child
  | some (.list items), some index => items[index]?.bind Field.node?
  | _, _ => none

def at? (root : Node) (address : Address) : Option Node :=
  address.foldr (fun step node => node.bind (·.child? step)) (some root)

/-- Whether a step goes to the field of an attribute, and not into a list. -/
def stepsTo (parent : Node) (name : String) (step : Step) : Bool :=
  step.item.isNone && (parent.kind.attributes[step.field]?.map Attribute.name) = some name

def stepTo (parent : Node) (name : String) : Step :=
  ⟨parent.kind.attributes.findIdx fun entry => entry.name = name, none⟩

def itemChildren (field : Nat) (items : List Field) : List (Step × Node) :=
  items.zipIdx.filterMap fun (item, index) =>
    item.node?.map fun child => (⟨field, some index⟩, child)

def fieldChildren (field : Nat) : Field → List (Step × Node)
  | .data _ => []
  | .node child => [(⟨field, none⟩, child)]
  | .list items => itemChildren field items

def steps (node : Node) : List (Step × Node) :=
  node.fields.zipIdx.flatMap fun (field, index) => fieldChildren index field

def children (node : Node) : List Node :=
  node.steps.map Prod.snd

end Node

structure Occurrence where
  address : Address
  node : Node
deriving Inhabited

namespace Node

mutual

/-- A node and all nodes below it, each before those below it and after those to its left. -/
def walkFrom (address : Address) : Node → List Occurrence
  | .mk kind fields location =>
    ⟨address, .mk kind fields location⟩ :: walkFields address 0 fields

def walkFields (address : Address) (index : Nat) : List Field → List Occurrence
  | [] => []
  | field :: rest => walkField address index field ++ walkFields address (index + 1) rest

def walkField (address : Address) (index : Nat) : Field → List Occurrence
  | .data _ => []
  | .node child => walkFrom (⟨index, none⟩ :: address) child
  | .list items => walkItems address index 0 items

def walkItems (address : Address) (index place : Nat) : List Field → List Occurrence
  | [] => []
  | .node child :: rest =>
    walkFrom (⟨index, some place⟩ :: address) child ++ walkItems address index (place + 1) rest
  | .data _ :: rest => walkItems address index (place + 1) rest
  | .list _ :: rest => walkItems address index (place + 1) rest

end

def walk (root : Node) : List Occurrence :=
  walkFrom [] root

def occurrence? (root : Node) (address : Address) : Option Occurrence :=
  (root.at? address).map fun node => ⟨address, node⟩

def above (root : Node) : Address → List Occurrence
  | [] => []
  | _ :: rest => (root.occurrence? rest).toList ++ above root rest

end Node

end Namesake
