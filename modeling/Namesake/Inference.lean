import Namesake.Typing

/-!
Inference goes once through all programs of a tree.  Every expression gets a type, and two
expressions get the same type if the program may move a value from one to the other, whatever the
order of statements.

The visit of an expression says whether its value is surely primitive.  Assigning a primitive value
unifies nothing, so unrelated counters and flags stay apart.  The receivers of methods are settled
in the end: a call unifies the object and the receiver of the method unless one of them is a
namespace, which is an object that holds constructors.
-/

namespace Namesake

namespace Infer

def inField (address : Address) (field : Nat) : Address :=
  ⟨field, none⟩ :: address

def inItem (address : Address) (field place : Nat) : Address :=
  ⟨field, some place⟩ :: address

/-- A field in place of a list, which holds no list but may be as empty as one. -/
def noItems (field : Field) : Infer Unit :=
  match field.elements? with
  | some [] => pure ()
  | _ => throw .malformed

def listed : Field → List Field
  | .list items => items
  | _ => []

def nameIn (field : Field) : Infer Field :=
  match field.nameValue? with
  | some name => pure name
  | none => throw .malformed

def stringIn? : Field → Option Field
  | .node (.mk .literal (.data (.text value) :: _) _) => some (.data (.text value))
  | _ => none

def keyName? (key : Field) : Option Field :=
  match key.nameValue? with
  | some name => if name.isNull then none else some name
  | none => stringIn? key

/-! ### Functions and calls -/

def bindParameters (address : Address) : Nat → List Field → Infer Unit
  | _, [] => pure ()
  | place, parameter :: rest => do
      let type ← bindName (← nameIn parameter)
      setType (inItem address 1 place) type
      bindParameters address (place + 1) rest

def bindAll : Env → Infer Unit
  | [] => pure ()
  | (name, _) :: rest => do
      let _ ← bindName name.value
      bindAll rest

/-- Begins a function: its names are bound, and its type remembers its receiver and its result. -/
def enterFunction (scopes : Scopes) (address : Address) (isExpression : Bool)
    (id params : Field) : Infer Unit := do
  enterScope
  match params with
  | .list items => bindParameters address 0 items
  | other => noItems other
  match scopes.env? address with
  | some env => bindAll env
  | none => throw .malformed
  if isExpression && !id.isNull then
    let own ← bindName (← nameIn id)
    unify (← typeAt address) own
    setType (inField address 0) (← typeAt address)
  let receiver ← bindText Synthetic.receiver
  let result ← bindText Synthetic.result
  let _ ← bindText (Text.ofString "arguments")
  let function ← typeAt address
  unify (← property function Synthetic.receiver) receiver
  unify (← property function Synthetic.result) result

/-- Marks the type of a node in a field as a namespace, and so the object that the node is read
from. -/
def markConstructor (address : Address) (field : Field) : Infer Unit := do
  markNamespace (← typeOf address field)
  match field with
  | .node (.mk .memberExpression (object :: _) _) =>
    markNamespace (← typeOf (inField address 0) object)
  | _ => pure ()

def passArguments (call function : Address) : Nat → List Field → List Field → Infer Unit
  | place, argument :: arguments, parameter :: parameters => do
      let bound ← match ← nameIn parameter with
        | .data (.text name) => boundIn function name
        | _ => throw .malformed
      unify (← typeOf (inItem call 1 place) argument) bound
      passArguments call function (place + 1) arguments parameters
  | _, _, _ => pure ()

/-- What a call does once the callee and the arguments are visited.  A function literal is connected
directly: the arguments to the parameters, the call to the result, and the receiver to the new
object or, for a plain call, to the global object.  Any other callee reaches its receiver only
through the type of the function. -/
def finishCall (address : Address) (isNew : Bool) (callee arguments : Field) : Infer Unit := do
  let function := inField address 0
  match callee with
  | .node (.mk .functionExpression (_ :: params :: _) _) =>
    passArguments address function 0 (listed arguments) (listed params)
    let result ← boundIn function Synthetic.result
    unify (← typeAt address) result
    let receiver ← boundIn function Synthetic.receiver
    if isNew then unify receiver (← typeAt address)
    else unify receiver Typing.globalType
  | .node _ =>
    if isNew then
      let receiver ← property (← typeAt function) Synthetic.receiver
      unify (← typeAt address) receiver
  | _ => throw .malformed
  match callee with
  | .node (.mk .memberExpression (object :: _) _) =>
    let receiver ← property (← typeAt function) Synthetic.receiver
    let base ← typeOf (inField function 0) object
    addMethod base receiver
  | _ => pure ()
  if isNew then markConstructor function callee

def finishMember (address : Address) (object property : Field) (computed : Bool)
    (base : TypeId) : Infer Unit := do
  let name : Option Field ←
    if computed then pure (stringIn? property) else some <$> nameIn property
  match name with
  | none =>
    -- An unknown key remembers the object that it belongs to.
    let key ← typeOf (inField address 1) property
    let owner ← Infer.property key Synthetic.owner
    unify owner (← typeOf (inField address 0) object)
  | some name =>
    let type ← propertyNamed base name
    unify (← typeAt address) type
    if name.isWord "prototype" then markConstructor (inField address 0) object

def finishAccessor (type : TypeId) (function : Address) (isGetter : Bool) (params : Field)
    (name : Field) : Infer Unit := do
  if isGetter then
    let property ← propertyNamed type name
    unify property (← boundIn function Synthetic.result)
  else
    match params with
    | .list (parameter :: _) =>
      let property ← propertyNamed type name
      match ← nameIn parameter with
      | .data (.text bound) => unify property (← boundIn function bound)
      | _ => throw .malformed
    | _ => pure ()
  unify type (← boundIn function Synthetic.receiver)

/-! ### Statements and expressions -/

mutual

def visitStatement (scopes : Scopes) (address : Address) : Field → Infer Unit
  | .data .null => pure ()
  | .node (.mk kind fields _) =>
    match kind, fields with
    | .emptyStatement, _ => pure ()
    | .debuggerStatement, _ => pure ()
    | .breakStatement, _ => pure ()
    | .continueStatement, _ => pure ()
    | .blockStatement, [body] => visitStatements scopes address 0 body
    | .expressionStatement, [expression] => do
        let _ ← visitExpression scopes true (inField address 0) expression
    | .ifStatement, [test, consequent, alternate] => do
        let _ ← visitExpression scopes true (inField address 0) test
        visitStatement scopes (inField address 1) consequent
        visitStatement scopes (inField address 2) alternate
    | .labeledStatement, [_, body] => visitStatement scopes (inField address 1) body
    | .withStatement, [object, body] => do
        let _ ← visitExpression scopes false (inField address 0) object
        visitStatement scopes (inField address 1) body
    | .switchStatement, [discriminant, cases] => do
        let primitive ← visitExpression scopes false (inField address 0) discriminant
        visitCases scopes primitive address cases
    | .returnStatement, [argument] => do
        if argument.isNull then pure ()
        else
          let _ ← visitExpression scopes false (inField address 0) argument
          let result ← variableNamed Synthetic.result
          unify (← typeOf (inField address 0) argument) result
    | .throwStatement, [argument] => do
        let _ ← visitExpression scopes true (inField address 0) argument
    | .tryStatement, [block, handler, finalizer] => do
        visitStatement scopes (inField address 0) block
        visitStatement scopes (inField address 1) handler
        visitStatement scopes (inField address 2) finalizer
    | .catchClause, [param, body] => do
        enterScope
        let type ← bindName (← nameIn param)
        setType (inField address 0) type
        visitStatement scopes (inField address 1) body
        leaveScope address
    | .whileStatement, [test, body] => do
        let _ ← visitExpression scopes true (inField address 0) test
        visitStatement scopes (inField address 1) body
    | .doWhileStatement, [body, test] => do
        visitStatement scopes (inField address 0) body
        let _ ← visitExpression scopes true (inField address 1) test
    | .forStatement,
        [.node (.mk .variableDeclaration [declarations, _] _), test, update, body] => do
        visitDeclarations scopes (inField address 0) declarations
        let _ ← visitExpression scopes true (inField address 1) test
        let _ ← visitExpression scopes true (inField address 2) update
        visitStatement scopes (inField address 3) body
    | .forStatement, [init, test, update, body] => do
        let _ ← visitExpression scopes true (inField address 0) init
        let _ ← visitExpression scopes true (inField address 1) test
        let _ ← visitExpression scopes true (inField address 2) update
        visitStatement scopes (inField address 3) body
    | .forInStatement, [.node (.mk .variableDeclaration [declarations, _] _), right, body] => do
        visitDeclarations scopes (inField address 0) declarations
        let _ ← visitExpression scopes false (inField address 1) right
        visitStatement scopes (inField address 2) body
    | .forInStatement, [left, right, body] => do
        if left.isNull then throw .malformed
        let _ ← visitExpression scopes true (inField address 0) left
        let _ ← visitExpression scopes false (inField address 1) right
        visitStatement scopes (inField address 2) body
    | .functionDeclaration, [id, params, body] => do
        enterFunction scopes address false id params
        visitStatement scopes (inField address 2) body
        leaveScope address
        let type ← variableType (← nameIn id)
        unify (← typeAt address) type
    | .variableDeclaration, [declarations, _] => visitDeclarations scopes address declarations
    | kind, _ => throw (.unsupported .statement kind.name)
  | _ => throw .malformed

def visitStatements (scopes : Scopes) (address : Address) (field : Nat) : Field → Infer Unit
  | .list items => visitStatementItems scopes address field 0 items
  | other => noItems other

def visitStatementItems (scopes : Scopes) (address : Address) (field place : Nat) :
    List Field → Infer Unit
  | [] => pure ()
  | item :: rest => do
      visitStatement scopes (inItem address field place) item
      visitStatementItems scopes address field (place + 1) rest

/-- Visits the cases of a `switch`.  If the value that they are compared with is primitive, their own
values are not used. -/
def visitCases (scopes : Scopes) (primitive : Bool) (address : Address) : Field → Infer Unit
  | .list items => visitCaseItems scopes primitive address 0 items
  | other => noItems other

def visitCaseItems (scopes : Scopes) (primitive : Bool) (address : Address) (place : Nat) :
    List Field → Infer Unit
  | [] => pure ()
  | item :: rest => do
      visitCase scopes primitive (inItem address 1 place) item
      visitCaseItems scopes primitive address (place + 1) rest

def visitCase (scopes : Scopes) (primitive : Bool) (address : Address) : Field → Infer Unit
  | .node (.mk kind fields _) =>
    match kind, fields with
    | .switchCase, [test, consequent] => do
        let _ ← visitExpression scopes primitive (inField address 0) test
        visitStatements scopes address 1 consequent
    | .ifStatement, [test, consequent, _] => do
        let _ ← visitExpression scopes primitive (inField address 0) test
        visitStatements scopes address 1 consequent
    | .conditionalExpression, [test, consequent, _] => do
        let _ ← visitExpression scopes primitive (inField address 0) test
        visitStatements scopes address 1 consequent
    | .whileStatement, [test, _] => do
        let _ ← visitExpression scopes primitive (inField address 0) test
        throw .malformed
    | .doWhileStatement, [_, test] => do
        let _ ← visitExpression scopes primitive (inField address 1) test
        throw .malformed
    | .forStatement, [_, test, _, _] => do
        let _ ← visitExpression scopes primitive (inField address 1) test
        throw .malformed
    | _, _ => throw .malformed
  | _ => throw .malformed

def visitDeclarations (scopes : Scopes) (address : Address) : Field → Infer Unit
  | .list items => visitDeclarationItems scopes address 0 items
  | other => noItems other

def visitDeclarationItems (scopes : Scopes) (address : Address) (place : Nat) :
    List Field → Infer Unit
  | [] => pure ()
  | .node (.mk .variableDeclarator [id, init] _) :: rest => do
      let inner := inItem address 0 place
      let binding ← variableType (← nameIn id)
      let primitive ← visitExpression scopes false (inField inner 1) init
      if !init.isNull && !primitive then
        unify binding (← typeOf (inField inner 1) init)
      setType (inField inner 0) binding
      visitDeclarationItems scopes address (place + 1) rest
  | .node (.mk kind (id :: _) _) :: _ => do
      if kind.isFunction then
        let _ ← variableType (← nameIn id)
      throw .malformed
  | _ :: _ => throw .malformed

/-- Visits the expression in a field, if there is one, and says whether its value is surely primitive.
Whether the value is used is known before. -/
def visitExpression (scopes : Scopes) (unused : Bool) (address : Address) :
    Field → Infer Bool
  | .data .null => pure false
  | .node (.mk kind fields _) =>
    match kind, fields with
    | .functionExpression, [id, params, body] => do
        enterFunction scopes address true id params
        visitStatement scopes (inField address 2) body
        leaveScope address
        return false
    | .thisExpression, _ => do
        let receiver ← variableNamed Synthetic.receiver
        unify (← typeAt address) receiver
        return false
    | .arrayExpression, [elements] => do
        let element ← property (← typeAt address) Synthetic.element
        visitElements scopes address element elements
        return false
    | .objectExpression, [properties] => do
        let type ← typeAt address
        visitProperties scopes address type properties
        return false
    | .sequenceExpression, [.list items] => visitSequence scopes unused address 0 items
    | .sequenceExpression, [other] => do
        noItems other
        throw .emptySequence
    | .unaryExpression, [_, argument, _] => do
        let _ ← visitExpression scopes true (inField address 1) argument
        return true
    | .binaryExpression, [_, left, right] => do
        let _ ← visitExpression scopes true (inField address 1) left
        let _ ← visitExpression scopes true (inField address 2) right
        return true
    | .assignmentExpression, [operator, left, right] => do
        let _ ← visitExpression scopes false (inField address 1) left
        let primitive ← visitExpression scopes false (inField address 2) right
        if operator.isWord "=" then
          if !primitive then
            let type ← typeAt address
            unify type (← typeOf (inField address 1) left)
            unify type (← typeOf (inField address 2) right)
          return primitive
        else return true
    | .updateExpression, [_, argument, _] => do
        let _ ← visitExpression scopes true (inField address 1) argument
        return true
    | .logicalExpression, [operator, left, right] => do
        if operator.isWord "&&" then
          let _ ← visitExpression scopes true (inField address 1) left
          let primitive ← visitExpression scopes unused (inField address 2) right
          let type ← typeAt address
          unify type (← typeOf (inField address 2) right)
          return primitive
        else if operator.isWord "||" then
          let first ← visitExpression scopes unused (inField address 1) left
          let second ← visitExpression scopes unused (inField address 2) right
          if !unused then
            let type ← typeAt address
            unify type (← typeOf (inField address 1) left)
            unify type (← typeOf (inField address 2) right)
          return first && second
        else throw (operator.unknownWord .logicalOperator)
    | .conditionalExpression, [test, consequent, alternate] => do
        let _ ← visitExpression scopes true (inField address 0) test
        let first ← visitExpression scopes unused (inField address 1) consequent
        let second ← visitExpression scopes unused (inField address 2) alternate
        if !unused then
          let type ← typeAt address
          unify type (← typeOf (inField address 1) consequent)
          unify type (← typeOf (inField address 2) alternate)
        return first && second
    | .callExpression, [callee, arguments] => do
        let _ ← visitExpression scopes false (inField address 0) callee
        visitArguments scopes address arguments
        finishCall address false callee arguments
        return false
    | .newExpression, [callee, arguments] => do
        let _ ← visitExpression scopes false (inField address 0) callee
        visitArguments scopes address arguments
        finishCall address true callee arguments
        return false
    | .memberExpression, [object, property, computed] => do
        let _ ← visitExpression scopes false (inField address 0) object
        let base ← typeOf (inField address 0) object
        if computed.isTruthy then
          let _ ← visitExpression scopes true (inField address 1) property
        finishMember address object property computed.isTruthy base
        return false
    | .identifier, [name] => do
        if name.isWord "undefined" then return true
        else
          let type ← variableType name
          unify (← typeAt address) type
          return false
    | .literal, _ => return true
    | .identifier, _ => throw .malformed
    | kind, _ => throw (.unsupported .expression kind.name)
  | _ => throw .malformed

def visitElements (scopes : Scopes) (address : Address) (element : TypeId) :
    Field → Infer Unit
  | .list items => visitElementItems scopes address element 0 items
  | other => noItems other

def visitElementItems (scopes : Scopes) (address : Address) (element : TypeId) (place : Nat) :
    List Field → Infer Unit
  | [] => pure ()
  | item :: rest => do
      if !item.isNull then
        let _ ← visitExpression scopes false (inItem address 0 place) item
        unify element (← typeOf (inItem address 0 place) item)
      visitElementItems scopes address element (place + 1) rest

def visitProperties (scopes : Scopes) (address : Address) (type : TypeId) :
    Field → Infer Unit
  | .list items => visitPropertyItems scopes address type 0 items
  | other => noItems other

def visitPropertyItems (scopes : Scopes) (address : Address) (type : TypeId) (place : Nat) :
    List Field → Infer Unit
  | [] => pure ()
  | .node (.mk .property [key, value, kind] _) :: rest => do
      let inner := inField (inItem address 0 place) 1
      if kind.isWord "init" then
        let _ ← visitExpression scopes false inner value
        match keyName? key with
        | none => pure ()
        | some name =>
          let property ← propertyNamed type name
          unify property (← typeOf inner value)
      else if kind.isWord "get" || kind.isWord "set" then
        visitAccessor scopes inner type (kind.isWord "get") (keyName? key) value
      else throw (kind.unknownWord .propertyKind)
      visitPropertyItems scopes address type (place + 1) rest
  | _ :: _ => throw .malformed

def visitAccessor (scopes : Scopes) (address : Address) (type : TypeId) (isGetter : Bool)
    (name : Option Field) : Field → Infer Unit
  | .node (.mk kind [id, params, body] _) => do
      if !kind.isFunction then throw .malformed
      enterFunction scopes address false id params
      visitStatement scopes (inField address 2) body
      leaveScope address
      match name with
      | none => pure ()
      | some name => finishAccessor type address isGetter params name
  | _ => throw .malformed

def visitSequence (scopes : Scopes) (unused : Bool) (address : Address) (place : Nat) :
    List Field → Infer Bool
  | [] => throw .emptySequence
  | [last] => do
      let primitive ← visitExpression scopes unused (inItem address 0 place) last
      let type ← typeAt address
      unify type (← typeOf (inItem address 0 place) last)
      return primitive
  | first :: second :: rest => do
      let _ ← visitExpression scopes true (inItem address 0 place) first
      visitSequence scopes unused address (place + 1) (second :: rest)

def visitArguments (scopes : Scopes) (address : Address) : Field → Infer Unit
  | .list items => visitArgumentItems scopes address 0 items
  | other => noItems other

def visitArgumentItems (scopes : Scopes) (address : Address) (place : Nat) :
    List Field → Infer Unit
  | [] => pure ()
  | item :: rest => do
      let _ ← visitExpression scopes false (inItem address 1 place) item
      visitArgumentItems scopes address (place + 1) rest

end

/-! ### Programs -/

mutual

def visitRoot (scopes : Scopes) (address : Address) : Node → Infer Unit
  | .mk .program [body, _] _ => visitStatements scopes address 0 body
  | .mk .programCollection [.list items] _ => visitRootItems scopes address 0 items
  | .mk .programCollection [other] _ => noItems other
  | .mk kind _ _ => throw (.unsupported .root kind.name)

def visitRootItems (scopes : Scopes) (address : Address) (place : Nat) :
    List Field → Infer Unit
  | [] => pure ()
  | .node child :: rest => do
      visitRoot scopes (inItem address 0 place) child
      visitRootItems scopes address (place + 1) rest
  | _ :: _ => throw .malformed

end

end Infer

/-! ### Receivers -/

namespace TypeGraph

/-- Lets every pair wait to be unified in which neither type is a namespace, and counts them. -/
def queueReceivers : List (TypeId × TypeId) → Nat → TypeGraph → Nat × TypeGraph
  | [], unified, graph => (unified, graph)
  | (base, receiver) :: rest, unified, graph =>
    let (base, graph) := graph.representative base
    let (receiver, graph) := graph.representative receiver
    if (graph.node base).isNamespace || (graph.node receiver).isNamespace then
      queueReceivers rest unified graph
    else queueReceivers rest (unified + 1) (graph.unifyLater base receiver)

end TypeGraph

structure Inference where
  typing : Typing
  completed : List Nat
  receivers : Nat

def Typing.resolveReceivers (typing : Typing) : Inference :=
  let (before, graph) := typing.graph.complete
  let (receivers, graph) := graph.queueReceivers typing.methods 0
  let (after, graph) := graph.complete
  { typing := { typing with graph }, completed := [before, after], receivers }

def Codebase.infer (codebase : Codebase) : Except Fault Inference := do
  let (_, typing) ← (Infer.visitRoot codebase.scopes [] codebase.root).run Typing.start
  return typing.resolveReceivers

end Namesake
