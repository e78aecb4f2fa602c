import Namesake.Token

/-!
A `Production` says that a nonterminal may stand for a sequence of symbols, and its `Form`
says what that sequence means.  `rules` lists all productions.  An expression that starts a
statement must not begin with a brace or the word `function`; the nonterminals of expressions
therefore carry a `Lead`, which their leftmost part inherits.
-/

namespace Namesake

inductive Lead where
  | anywhere
  | statement
deriving DecidableEq, Inhabited

inductive Nonterminal where
  | program
  | statement
  | block
  | variableStatement
  | declarators
  | declarator
  | emptyStatement
  | expressionStatement
  | ifStatement
  | doWhileStatement
  | whileStatement
  | forStatement
  | forInit
  | forTest
  | forUpdate
  | forInStatement
  | continueStatement
  | breakStatement
  | returnStatement
  | withStatement
  | switchStatement
  | caseClause
  | labelledStatement
  | throwStatement
  | tryStatement
  | catchClause
  | finallyClause
  | debuggerStatement
  | functionDeclaration
  | functionExpression
  | parameters
  | expression (lead : Lead)
  | assignment (lead : Lead)
  | conditional (lead : Lead)
  | logicalOr (lead : Lead)
  | logicalAnd (lead : Lead)
  | bitOr (lead : Lead)
  | bitXor (lead : Lead)
  | bitAnd (lead : Lead)
  | equality (lead : Lead)
  | relational (lead : Lead)
  | shift (lead : Lead)
  | additive (lead : Lead)
  | multiplicative (lead : Lead)
  | unary (lead : Lead)
  | postfixed (lead : Lead)
  | leftHandSide (lead : Lead)
  | creation (lead : Lead)
  | member (lead : Lead)
  | application (lead : Lead)
  | primary (lead : Lead)
  | arguments
  | literal
  | arrayLiteral
  | arrayItem
  | objectLiteral
  | property
  | propertyName
  | statements
  | moreDeclarators
  | caseClauses
  | moreParameters
  | moreExpressions
  | moreItems
  | moreProperties
deriving DecidableEq, Inhabited

inductive Symbol where
  | terminal (kind : Terminal)
  | nonterminal (phrase : Nonterminal)
deriving DecidableEq, Inhabited

inductive Form where
  /-- The phrase is the one phrase within it, perhaps between parentheses. -/
  | inner
  | items
  | optional
  | program
  | block
  | variableStatement
  | declarators
  | declarator
  | emptyStatement
  | expressionStatement
  | ifStatement
  | doWhileStatement
  | whileStatement
  | forStatement
  | forVariables
  | forInStatement
  | forInVariable
  | continueStatement
  | breakStatement
  | returnStatement
  | withStatement
  | switchStatement
  | caseClause
  | defaultClause
  | labelledStatement
  | throwStatement
  | tryStatement
  | catchClause
  | finallyClause
  | debuggerStatement
  | functionDeclaration
  | functionExpression
  | parameters
  | sequence
  | assign
  | conditional
  | logical
  | binary
  | unary
  | prefixUpdate
  | postfixUpdate
  | newBare
  | newWithArguments
  | call
  | arguments
  | computedMember
  | staticMember
  | this
  | identifier
  | nullLiteral
  | trueLiteral
  | falseLiteral
  | numberLiteral
  | stringLiteral
  | regexLiteral
  | arrayLiteral
  | objectLiteral
  | initProperty
  | getter
  | setter
deriving DecidableEq, Inhabited

structure Production where
  head : Nonterminal
  body : List Symbol
  form : Form
deriving DecidableEq, Inhabited

namespace Grammar

open Terminal Nonterminal

abbrev t (kind : Terminal) : Symbol := .terminal kind

abbrev n (phrase : Nonterminal) : Symbol := .nonterminal phrase

def rule (head : Nonterminal) (alternatives : List (List Symbol × Form)) : List Production :=
  alternatives.map fun (body, form) => ⟨head, body, form⟩

abbrev expr : Symbol := n (expression .anywhere)

abbrev assign : Symbol := n (assignment .anywhere)

def statementRules : List Production :=
  rule program
    [ ([n statements], .program),
      ([], .program) ] ++
  rule statement
    [ ([n block], .inner),
      ([n variableStatement], .inner),
      ([n emptyStatement], .inner),
      ([n expressionStatement], .inner),
      ([n ifStatement], .inner),
      ([n doWhileStatement], .inner),
      ([n whileStatement], .inner),
      ([n forStatement], .inner),
      ([n forInStatement], .inner),
      ([n continueStatement], .inner),
      ([n breakStatement], .inner),
      ([n returnStatement], .inner),
      ([n withStatement], .inner),
      ([n switchStatement], .inner),
      ([n labelledStatement], .inner),
      ([n throwStatement], .inner),
      ([n tryStatement], .inner),
      ([n debuggerStatement], .inner),
      ([n functionDeclaration], .inner) ] ++
  rule block
    [ ([t leftBrace, n statements, t rightBrace], .block),
      ([t leftBrace, t rightBrace], .block) ] ++
  rule variableStatement
    [ ([t varWord, n declarators, t semicolon], .variableStatement) ] ++
  rule declarators
    [ ([n declarator, n moreDeclarators], .declarators),
      ([n declarator], .declarators) ] ++
  rule declarator
    [ ([t identifier, t equals, assign], .declarator),
      ([t identifier], .declarator) ] ++
  rule emptyStatement
    [ ([t semicolon], .emptyStatement) ] ++
  rule expressionStatement
    [ ([n (expression .statement), t semicolon], .expressionStatement) ] ++
  rule ifStatement
    [ ([t ifWord, t leftParen, expr, t rightParen, n statement, t elseWord, n statement],
        .ifStatement),
      ([t ifWord, t leftParen, expr, t rightParen, n statement], .ifStatement) ] ++
  rule doWhileStatement
    [ ([t doWord, n statement, t whileWord, t leftParen, expr, t rightParen, t semicolon],
        .doWhileStatement),
      ([t doWord, n statement, t whileWord, t leftParen, expr, t rightParen],
        .doWhileStatement) ] ++
  rule whileStatement
    [ ([t whileWord, t leftParen, expr, t rightParen, n statement], .whileStatement) ] ++
  rule forStatement
    [ ([t forWord, t leftParen, n forInit, t semicolon, n forTest, t semicolon, n forUpdate,
        t rightParen, n statement], .forStatement) ] ++
  rule forInit
    [ ([expr], .optional),
      ([], .optional),
      ([t varWord, n declarators], .forVariables) ] ++
  rule forTest
    [ ([expr], .optional),
      ([], .optional) ] ++
  rule forUpdate
    [ ([expr], .optional),
      ([], .optional) ] ++
  rule forInStatement
    [ ([t forWord, t leftParen, expr, t rightParen, n statement], .forInStatement),
      ([t forWord, t leftParen, t varWord, t identifier, t inWord, expr, t rightParen, n statement],
        .forInVariable) ] ++
  rule continueStatement
    [ ([t continueWord, t identifier, t semicolon], .continueStatement),
      ([t continueWord, t semicolon], .continueStatement) ] ++
  rule breakStatement
    [ ([t breakWord, t identifier, t semicolon], .breakStatement),
      ([t breakWord, t semicolon], .breakStatement) ] ++
  rule returnStatement
    [ ([t returnWord, expr, t semicolon], .returnStatement),
      ([t returnWord, t semicolon], .returnStatement) ] ++
  rule withStatement
    [ ([t withWord, t leftParen, expr, t rightParen, n statement], .withStatement) ] ++
  rule switchStatement
    [ ([t switchWord, t leftParen, expr, t rightParen, t leftBrace, n caseClauses, t rightBrace],
        .switchStatement),
      ([t switchWord, t leftParen, expr, t rightParen, t leftBrace, t rightBrace],
        .switchStatement) ] ++
  rule caseClause
    [ ([t caseWord, expr, t colon, n statements], .caseClause),
      ([t caseWord, expr, t colon], .caseClause),
      ([t defaultWord, t colon, n statements], .defaultClause),
      ([t defaultWord, t colon], .defaultClause) ] ++
  rule labelledStatement
    [ ([t identifier, t colon, n statement], .labelledStatement) ] ++
  rule throwStatement
    [ ([t throwWord, expr, t semicolon], .throwStatement) ] ++
  rule tryStatement
    [ ([t tryWord, n block, n catchClause, n finallyClause], .tryStatement),
      ([t tryWord, n block, n catchClause], .tryStatement),
      ([t tryWord, n block, n finallyClause], .tryStatement),
      ([t tryWord, n block], .tryStatement) ] ++
  rule catchClause
    [ ([t catchWord, t leftParen, t identifier, t rightParen, n block], .catchClause) ] ++
  rule finallyClause
    [ ([t finallyWord, n block], .finallyClause) ] ++
  rule debuggerStatement
    [ ([t debuggerWord, t semicolon], .debuggerStatement) ]

def functionRules : List Production :=
  rule functionDeclaration
    [ ([t functionWord, t identifier, t leftParen, n parameters, t rightParen, n block],
        .functionDeclaration),
      ([t functionWord, t identifier, t leftParen, t rightParen, n block],
        .functionDeclaration) ] ++
  rule functionExpression
    [ ([t functionWord, t identifier, t leftParen, n parameters, t rightParen, n block],
        .functionExpression),
      ([t functionWord, t identifier, t leftParen, t rightParen, n block], .functionExpression),
      ([t functionWord, t leftParen, n parameters, t rightParen, n block], .functionExpression),
      ([t functionWord, t leftParen, t rightParen, n block], .functionExpression) ] ++
  rule parameters
    [ ([t identifier, n moreParameters], .parameters),
      ([t identifier], .parameters) ]

/-- A level of left-associative binary operators above the phrases that are their operands. -/
def operatorRules (lead : Lead) (head operand : Lead → Nonterminal) (operators : List Terminal)
    (form : Form) : List Production :=
  ⟨head lead, [n (operand lead)], .inner⟩ ::
    operators.map fun operator =>
      ⟨head lead, [n (head lead), t operator, n (operand .anywhere)], form⟩

def expressionRules (lead : Lead) : List Production :=
  rule (expression lead)
    [ ([n (assignment lead)], .inner),
      ([n (assignment lead), n moreExpressions], .sequence) ] ++
  rule (assignment lead)
    [ ([n (conditional lead)], .inner),
      ([n (leftHandSide lead), t equals, assign], .assign),
      ([n (leftHandSide lead), t assignOp, assign], .assign) ] ++
  rule (conditional lead)
    [ ([n (logicalOr lead)], .inner),
      ([n (logicalOr lead), t question, assign, t colon, assign], .conditional) ] ++
  operatorRules lead logicalOr logicalAnd [orOp] .logical ++
  operatorRules lead logicalAnd Nonterminal.bitOr [andOp] .logical ++
  operatorRules lead Nonterminal.bitOr Nonterminal.bitXor [Terminal.bitOr] .binary ++
  operatorRules lead Nonterminal.bitXor Nonterminal.bitAnd [Terminal.bitXor] .binary ++
  operatorRules lead Nonterminal.bitAnd equality [Terminal.bitAnd] .binary ++
  operatorRules lead equality relational [equalityOp] .binary ++
  operatorRules lead relational shift [relationalOp, instanceofWord, inWord] .binary ++
  operatorRules lead shift additive [shiftOp] .binary ++
  operatorRules lead additive multiplicative [additiveOp] .binary ++
  operatorRules lead multiplicative unary [multiplicativeOp] .binary ++
  rule (unary lead)
    [ ([n (postfixed lead)], .inner),
      ([t unaryOp, n (unary .anywhere)], .unary),
      ([t additiveOp, n (unary .anywhere)], .unary),
      ([t deleteWord, n (unary .anywhere)], .unary),
      ([t voidWord, n (unary .anywhere)], .unary),
      ([t typeofWord, n (unary .anywhere)], .unary),
      ([t updateOp, n (unary .anywhere)], .prefixUpdate),
      ([t leadingUpdateOp, n (unary .anywhere)], .prefixUpdate) ] ++
  rule (postfixed lead)
    [ ([n (leftHandSide lead)], .inner),
      ([n (leftHandSide lead), t updateOp], .postfixUpdate) ] ++
  rule (leftHandSide lead)
    [ ([n (creation lead)], .inner),
      ([n (application lead)], .inner) ] ++
  rule (creation lead)
    [ ([n (member lead)], .inner),
      ([t newWord, n (creation .anywhere)], .newBare) ] ++
  rule (member lead)
    [ ([n (primary lead)], .inner),
      ([n (member lead), t leftBracket, expr, t rightBracket], .computedMember),
      ([n (member lead), t dot, t identifier], .staticMember),
      ([t newWord, n (member .anywhere), n arguments], .newWithArguments) ] ++
  rule (application lead)
    [ ([n (member lead), n arguments], .call),
      ([n (application lead), n arguments], .call),
      ([n (application lead), t leftBracket, expr, t rightBracket], .computedMember),
      ([n (application lead), t dot, t identifier], .staticMember) ] ++
  rule (primary lead)
    [ ([t thisWord], .this),
      ([t identifier], .identifier),
      ([n literal], .inner),
      ([n arrayLiteral], .inner),
      ([t leftParen, expr, t rightParen], .inner) ]

/-- What only an expression that does not start a statement may begin with. -/
def bracedRules : List Production :=
  rule (member .anywhere)
    [ ([n functionExpression], .inner) ] ++
  rule (primary .anywhere)
    [ ([n objectLiteral], .inner) ]

def literalRules : List Production :=
  rule arguments
    [ ([t leftParen, assign, n moreExpressions, t rightParen], .arguments),
      ([t leftParen, assign, t rightParen], .arguments),
      ([t leftParen, t rightParen], .arguments) ] ++
  rule literal
    [ ([t nullWord], .nullLiteral),
      ([t trueWord], .trueLiteral),
      ([t falseWord], .falseLiteral),
      ([t number], .numberLiteral),
      ([t string], .stringLiteral),
      ([t regex], .regexLiteral) ] ++
  rule arrayLiteral
    [ ([t leftBracket, n arrayItem, n moreItems, t rightBracket], .arrayLiteral),
      ([t leftBracket, n arrayItem, t rightBracket], .arrayLiteral) ] ++
  rule arrayItem
    [ ([assign], .optional),
      ([], .optional) ] ++
  rule objectLiteral
    [ ([t leftBrace, n property, n moreProperties, t comma, t rightBrace], .objectLiteral),
      ([t leftBrace, n property, n moreProperties, t rightBrace], .objectLiteral),
      ([t leftBrace, n property, t comma, t rightBrace], .objectLiteral),
      ([t leftBrace, n property, t rightBrace], .objectLiteral),
      ([t leftBrace, t rightBrace], .objectLiteral) ] ++
  rule property
    [ ([n propertyName, t colon, assign], .initProperty),
      ([t getWord, n propertyName, t leftParen, t rightParen, n block], .getter),
      ([t setWord, n propertyName, t leftParen, t identifier, t rightParen, n block], .setter) ] ++
  rule propertyName
    [ ([t identifier], .identifier),
      ([t getWord], .identifier),
      ([t setWord], .identifier),
      ([t string], .stringLiteral),
      ([t number], .numberLiteral) ]

def sequenceRules : List Production :=
  rule statements
    [ ([n statement], .items),
      ([n statements, n statement], .items) ] ++
  rule moreDeclarators
    [ ([t comma, n declarator], .items),
      ([n moreDeclarators, t comma, n declarator], .items) ] ++
  rule caseClauses
    [ ([n caseClause], .items),
      ([n caseClauses, n caseClause], .items) ] ++
  rule moreParameters
    [ ([t comma, t identifier], .items),
      ([n moreParameters, t comma, t identifier], .items) ] ++
  rule moreExpressions
    [ ([t comma, assign], .items),
      ([n moreExpressions, t comma, assign], .items) ] ++
  rule moreItems
    [ ([t comma, n arrayItem], .items),
      ([n moreItems, t comma, n arrayItem], .items) ] ++
  rule moreProperties
    [ ([t comma, n property], .items),
      ([n moreProperties, t comma, n property], .items) ]

def rules : List Production :=
  statementRules ++ functionRules ++ expressionRules .statement ++ expressionRules .anywhere ++
    bracedRules ++ literalRules ++ sequenceRules

end Grammar

end Namesake
