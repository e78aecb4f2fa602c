import Namesake.Derivation
import Namesake.Literal
import Namesake.Node

/-!
Every phrase gives its parts to the phrase around it, and `Phrase.make` turns the parts of a phrase
into what it means.  Of the phrases that the grammar derives and the language does not allow, the
first one, in the order in which phrases end, is reported.
-/

namespace Namesake

inductive SyntaxError where
  | loopHead (location : Option Location)
  | loopTarget (location : Option Location)
  | assignmentTarget (location : Option Location)
  | bareTry (location : Option Location)
  /-- A form that does not fit its parts; no production of the grammar gives one. -/
  | misshapen (form : Form)

inductive Part where
  | token (token : Token)
  | node (node : Node)
  | nodes (nodes : List Node)
  | hole

namespace Part

def allNodes? : List Part → Option (List Node)
  | [] => some []
  | .node first :: rest => (allNodes? rest).map (first :: ·)
  | _ :: _ => none

def allTokens? : List Part → Option (List Token)
  | [] => some []
  | .token first :: rest => (allTokens? rest).map (first :: ·)
  | _ :: _ => none

def field? : Part → Option Field
  | .node found => some (.node found)
  | .hole => some (.data .null)
  | _ => none

def allFields? : List Part → Option (List Field)
  | [] => some []
  | part :: rest => do return (← part.field?) :: (← allFields? rest)

end Part

namespace Phrase

/-- The location of an extent; a phrase without text is put at the start of the file. -/
def locate (file : String) : Option Extent → Location
  | none => .between file ⟨0, 1, 0⟩ ⟨0, 0, 0⟩
  | some extent => .between file extent.first extent.last

def spelling (token : Token) : Field :=
  .data (.text (.ofChars token.text))

def listOf (nodes : List Node) : Field :=
  .list (nodes.map .node)

def name (file : String) (token : Token) : Node :=
  .mk .identifier [spelling token] (locate file token.extent)

def literal (value : Data) (raw regex : Field) (location : Location) : Node :=
  .mk .literal [.data value, raw, regex] location

def isTarget (node : Node) : Bool :=
  node.kind = .identifier || node.kind = .memberExpression

def inOperands? : Node → Option (Node × Node)
  | .mk .binaryExpression [.data (.text operator), .node left, .node right] _ =>
    if operator = Text.ofString "in" then some (left, right) else none
  | _ => none

/-- The leftmost operand of a chain of `in` expressions, and the others from left to right behind
those that are given. -/
def inChain : Node → List Node → Node × List Node
  | .mk .binaryExpression [.data (.text operator), .node left, .node right] location, others =>
    if operator = Text.ofString "in" then inChain left (right :: others)
    else
      (.mk .binaryExpression [.data (.text operator), .node left, .node right] location, others)
  | node, others => (node, others)

def joinIn (file : String) (left right : Node) : Node :=
  .mk .binaryExpression [.data (.ofString "in"), .node left, .node right] (do
    return ⟨file, (← left.location).first, (← right.location).last⟩)

/-- A loop over the keys of an object.  Its head is read as one expression, in which the operators
`in` associate to the left: the leftmost operand is the target of the loop and the others, joined
again, are the object. -/
def forIn (file : String) (location : Location) (head body : Node) : Except SyntaxError Node :=
  match inOperands? head with
  | none => .error (.loopHead head.location)
  | some (left, right) =>
    let (target, others) := inChain left [right]
    if !isTarget target then .error (.loopTarget target.location)
    else
      match others with
      | [] => .error (.loopHead head.location)
      | first :: rest =>
        let object := rest.foldl (joinIn file) first
        .ok (.mk .forInStatement [.node target, .node object, .node body] location)

/-- The function of an accessor, from the end of the key to the end of the body. -/
def accessor (file : String) (location : Location) (kind : String) (key : Node)
    (parameters : List Node) (body : Node) : Node :=
  let extent : Option Location := do
    return ⟨file, (← key.location).last, (← body.location).last⟩
  let function : Node :=
    .mk .functionExpression [.data .null, listOf parameters, .node body] extent
  .mk .property [.node key, .node function, .data (.ofString kind)] location

def tryOf (location : Location) (block : Node) (rest : List Node) : Except SyntaxError Node :=
  let handler := rest.find? fun node => node.kind = .catchClause
  let finalizer := rest.find? fun node => node.kind = .blockStatement
  let field (node : Option Node) : Field := (node.map Field.node).getD (.data .null)
  if handler.isNone && finalizer.isNone then .error (.bareTry location)
  else .ok (.mk .tryStatement [.node block, field handler, field finalizer] location)

def make (file : String) (form : Form) (extent : Option Extent) (parts : List Part) :
    Except SyntaxError (List Part) :=
  let location := locate file extent
  let node (kind : Kind) (fields : List Field) : Except SyntaxError (List Part) :=
    .ok [.node (.mk kind fields (some location))]
  let constant (value : Data) (raw : String) : Except SyntaxError (List Part) :=
    .ok [.node (literal value (.data (.ofString raw)) (.data .null) location)]
  let misshapen : Except SyntaxError (List Part) := .error (.misshapen form)
  match form, parts with
  | .inner, parts => .ok parts
  | .items, parts => .ok parts
  | .optional, [] => .ok [.hole]
  | .optional, [.node expression] => .ok [.node expression]
  | .program, parts =>
    match Part.allNodes? parts with
    | some body => node .program [listOf body, .data (.ofString file)]
    | none => misshapen
  | .block, parts =>
    match Part.allNodes? parts with
    | some body => node .blockStatement [listOf body]
    | none => misshapen
  | .variableStatement, [.nodes declarators] =>
    node .variableDeclaration [listOf declarators, .data (.ofString "var")]
  | .declarators, parts =>
    match Part.allNodes? parts with
    | some declarators => .ok [.nodes declarators]
    | none => misshapen
  | .declarator, [.token token] =>
    node .variableDeclarator [.node (name file token), .data .null]
  | .declarator, [.token token, .token _, .node init] =>
    node .variableDeclarator [.node (name file token), .node init]
  | .emptyStatement, [] => node .emptyStatement []
  | .expressionStatement, [.node expression] => node .expressionStatement [.node expression]
  | .ifStatement, [.node test, .node consequent] =>
    node .ifStatement [.node test, .node consequent, .data .null]
  | .ifStatement, [.node test, .node consequent, .node alternate] =>
    node .ifStatement [.node test, .node consequent, .node alternate]
  | .doWhileStatement, [.node body, .node test] =>
    node .doWhileStatement [.node body, .node test]
  | .whileStatement, [.node test, .node body] => node .whileStatement [.node test, .node body]
  | .forStatement, [init, test, update, .node body] =>
    match init.field?, test.field?, update.field? with
    | some init, some test, some update => node .forStatement [init, test, update, .node body]
    | _, _, _ => misshapen
  | .forVariables, [.nodes declarators] =>
    node .variableDeclaration [listOf declarators, .data (.ofString "var")]
  | .forInStatement, [.node head, .node body] =>
    (forIn file location head body).map fun loop => [.node loop]
  | .forInVariable, [.token token, .token _, .node right, .node body] =>
    let place := locate file token.extent
    let declarator : Node :=
      .mk .variableDeclarator [.node (name file token), .data .null] place
    let left : Node :=
      .mk .variableDeclaration [listOf [declarator], .data (.ofString "var")] place
    node .forInStatement [.node left, .node right, .node body]
  | .continueStatement, [] => node .continueStatement [.data .null]
  | .continueStatement, [.token label] => node .continueStatement [.node (name file label)]
  | .breakStatement, [] => node .breakStatement [.data .null]
  | .breakStatement, [.token label] => node .breakStatement [.node (name file label)]
  | .returnStatement, [] => node .returnStatement [.data .null]
  | .returnStatement, [.node argument] => node .returnStatement [.node argument]
  | .withStatement, [.node object, .node body] => node .withStatement [.node object, .node body]
  | .switchStatement, .node discriminant :: cases =>
    match Part.allNodes? cases with
    | some cases => node .switchStatement [.node discriminant, listOf cases]
    | none => misshapen
  | .caseClause, .node test :: consequent =>
    match Part.allNodes? consequent with
    | some consequent => node .switchCase [.node test, listOf consequent]
    | none => misshapen
  | .defaultClause, consequent =>
    match Part.allNodes? consequent with
    | some consequent => node .switchCase [.data .null, listOf consequent]
    | none => misshapen
  | .labelledStatement, [.token label, .node body] =>
    node .labeledStatement [.node (name file label), .node body]
  | .throwStatement, [.node argument] => node .throwStatement [.node argument]
  | .tryStatement, .node block :: rest =>
    match Part.allNodes? rest with
    | some rest => (tryOf location block rest).map fun statement => [.node statement]
    | none => misshapen
  | .catchClause, [.token parameter, .node body] =>
    node .catchClause [.node (name file parameter), .node body]
  | .finallyClause, [.node block] => .ok [.node block]
  | .debuggerStatement, [] => node .debuggerStatement []
  | .functionDeclaration, [.token token, .nodes parameters, .node body] =>
    node .functionDeclaration [.node (name file token), listOf parameters, .node body]
  | .functionDeclaration, [.token token, .node body] =>
    node .functionDeclaration [.node (name file token), listOf [], .node body]
  | .functionExpression, [.token token, .nodes parameters, .node body] =>
    node .functionExpression [.node (name file token), listOf parameters, .node body]
  | .functionExpression, [.token token, .node body] =>
    node .functionExpression [.node (name file token), listOf [], .node body]
  | .functionExpression, [.nodes parameters, .node body] =>
    node .functionExpression [.data .null, listOf parameters, .node body]
  | .functionExpression, [.node body] =>
    node .functionExpression [.data .null, listOf [], .node body]
  | .parameters, parts =>
    match Part.allTokens? parts with
    | some tokens => .ok [.nodes (tokens.map (name file))]
    | none => misshapen
  | .sequence, parts =>
    match Part.allNodes? parts with
    | some expressions => node .sequenceExpression [listOf expressions]
    | none => misshapen
  | .assign, [.node left, .token operator, .node right] =>
    if isTarget left then
      node .assignmentExpression [spelling operator, .node left, .node right]
    else .error (.assignmentTarget left.location)
  | .conditional, [.node test, .node consequent, .node alternate] =>
    node .conditionalExpression [.node test, .node consequent, .node alternate]
  | .logical, [.node left, .token operator, .node right] =>
    node .logicalExpression [spelling operator, .node left, .node right]
  | .binary, [.node left, .token operator, .node right] =>
    node .binaryExpression [spelling operator, .node left, .node right]
  | .unary, [.token operator, .node argument] =>
    node .unaryExpression [spelling operator, .node argument, .data (.bool true)]
  | .prefixUpdate, [.token operator, .node argument] =>
    node .updateExpression [spelling operator, .node argument, .data (.bool true)]
  | .postfixUpdate, [.node argument, .token operator] =>
    node .updateExpression [spelling operator, .node argument, .data (.bool false)]
  | .newBare, [.node callee] => node .newExpression [.node callee, listOf []]
  | .newWithArguments, [.node callee, .nodes arguments] =>
    node .newExpression [.node callee, listOf arguments]
  | .call, [.node callee, .nodes arguments] =>
    node .callExpression [.node callee, listOf arguments]
  | .arguments, parts =>
    match Part.allNodes? parts with
    | some arguments => .ok [.nodes arguments]
    | none => misshapen
  | .computedMember, [.node object, .node property] =>
    node .memberExpression [.node object, .node property, .data (.bool true)]
  | .staticMember, [.node object, .token token] =>
    node .memberExpression [.node object, .node (name file token), .data (.bool false)]
  | .this, [] => node .thisExpression []
  | .identifier, [.token token] => node .identifier [spelling token]
  | .nullLiteral, [] => constant .null "null"
  | .trueLiteral, [] => constant (.bool true) "true"
  | .falseLiteral, [] => constant (.bool false) "false"
  | .numberLiteral, [.token token] =>
    node .literal [.data (Literal.number token.text), spelling token, .data .null]
  | .stringLiteral, [.token token] =>
    node .literal [.data (.text (Literal.string token.text)), spelling token, .data .null]
  | .regexLiteral, [.token token] => node .literal [.data .null, spelling token, spelling token]
  | .arrayLiteral, parts =>
    match Part.allFields? parts with
    | some elements =>
      let elements :=
        if (elements.getLast?.map Field.isNull) = some true then elements.dropLast else elements
      node .arrayExpression [.list elements]
    | none => misshapen
  | .objectLiteral, parts =>
    match Part.allNodes? parts with
    | some properties => node .objectExpression [listOf properties]
    | none => misshapen
  | .initProperty, [.node key, .node value] =>
    node .property [.node key, .node value, .data (.ofString "init")]
  | .getter, [.token _, .node key, .node body] =>
    .ok [.node (accessor file location "get" key [] body)]
  | .setter, [.token _, .node key, .token parameter, .node body] =>
    .ok [.node (accessor file location "set" key [name file parameter] body)]
  | _, _ => misshapen

end Phrase

namespace Derivation

mutual

def parts (file : String) : Derivation → Except SyntaxError (List Part)
  | leaf token => .ok (if token.kind.isContent then [.token token] else [])
  | branch production derivations => do
      let inside ← partsAll file derivations
      Phrase.make file production.form (branch production derivations).extent inside

def partsAll (file : String) : List Derivation → Except SyntaxError (List Part)
  | [] => .ok []
  | derivation :: rest => do
      let first ← derivation.parts file
      let others ← partsAll file rest
      return first ++ others

end

def toNode (file : String) (derivation : Derivation) : Except SyntaxError Node := do
  match ← derivation.parts file with
  | [.node node] => return node
  | _ => throw (.misshapen .program)

end Derivation

end Namesake
