import Namesake.Grammar

/-!
Every state but the start is entered by one symbol, from the states that are its sources.  In
a state the finished productions are reduced, each at the terminals listed with it.  States
are named by their place in `Automaton.states`, productions by their place in
`Grammar.rules`.  Two ambiguities are settled in favour of the longer phrase: an `else`
belongs to the nearest `if`, and a semicolon behind a `do` loop belongs to the loop.
-/

namespace Namesake.Automaton

/-- A state: the symbol that leads to it, the states from which it does, and the productions to
reduce by, each with the terminals at which to do so. -/
structure State where
  symbol : Symbol
  sources : List Nat
  reductions : List (Nat × List Terminal)
deriving Inhabited

/-! ### Sets of states -/

def statementStarts : List Nat :=
  [ 0, 26, 30, 78, 79, 145, 307, 308, 312, 320, 382, 387, 391, 398, 399, 401, 402 ]

def expressionStarts : List Nat :=
  [ 9, 14, 31, 95, 124, 129, 131, 132, 141, 171, 174, 202, 205, 311, 319, 351, 374, 379 ]

def assignmentStarts : List Nat :=
  [ 32, 151, 154, 166, 168, 170, 210, 222, 223, 237, 245, 249, 285, 322, 325, 347 ] ++
    expressionStarts

/-! An operand starts behind each operator that binds weaker, and where an assignment does. -/

def bitOrStarts : List Nat :=
  [153, 209] ++ assignmentStarts

def bitXorStarts : List Nat :=
  [155, 211] ++ bitOrStarts

def bitAndStarts : List Nat :=
  [156, 212] ++ bitXorStarts

def equalityStarts : List Nat :=
  [157, 213] ++ bitAndStarts

def relationalStarts : List Nat :=
  [158, 214] ++ equalityStarts

def shiftStarts : List Nat :=
  [159, 215] ++ relationalStarts

def additiveStarts : List Nat :=
  [160, 161, 162, 216, 217, 218] ++ shiftStarts

def multiplicativeStarts : List Nat :=
  [163, 219] ++ additiveStarts

def operatorStates : List Nat :=
  [ 8, 11, 19, 25, 28, 29, 34, 86, 87, 89, 91, 92, 93, 96, 153, 155, 156, 157, 158, 159, 160, 161,
    162, 163, 164, 165, 209, 211, 212, 213, 214, 215, 216, 217, 218, 219, 220, 221 ]

def unaryStarts : List Nat :=
  operatorStates ++ assignmentStarts

def operandStarts : List Nat :=
  [22, 90] ++ unaryStarts

def literalStarts : List Nat :=
  statementStarts ++ operandStarts

/-! ### Sets of terminals

An operand is followed by the operators that bind weaker, and by what may follow the whole. -/

def afterLogicalOrAtStart : List Terminal :=
  [.orOp, .comma, .question, .semicolon]

def afterLogicalAndAtStart : List Terminal :=
  .andOp :: afterLogicalOrAtStart

def afterBitOrAtStart : List Terminal :=
  .bitOr :: afterLogicalAndAtStart

def afterBitXorAtStart : List Terminal :=
  .bitXor :: afterBitOrAtStart

def afterBitAndAtStart : List Terminal :=
  .bitAnd :: afterBitXorAtStart

def afterEqualityAtStart : List Terminal :=
  .equalityOp :: afterBitAndAtStart

def afterRelationalAtStart : List Terminal :=
  [.instanceofWord, .relationalOp, .inWord] ++ afterEqualityAtStart

def afterShiftAtStart : List Terminal :=
  .shiftOp :: afterRelationalAtStart

def afterAdditiveAtStart : List Terminal :=
  .additiveOp :: afterShiftAtStart

def afterMultiplicativeAtStart : List Terminal :=
  .multiplicativeOp :: afterAdditiveAtStart

def afterLeftHandSideAtStart : List Terminal :=
  [.assignOp, .updateOp, .equals] ++ afterMultiplicativeAtStart

def afterPrimaryAtStart : List Terminal :=
  [.dot, .leftParen, .leftBracket] ++ afterLeftHandSideAtStart

/-- Elsewhere than at the start of a statement, brackets may close and a colon may follow. -/
def elsewhere (terminals : List Terminal) : List Terminal :=
  [.colon, .rightBrace, .rightParen, .rightBracket] ++ terminals

def afterAssignment := elsewhere [.comma, .semicolon]
def afterLogicalOr := elsewhere afterLogicalOrAtStart
def afterLogicalAnd := elsewhere afterLogicalAndAtStart
def afterBitOr := elsewhere afterBitOrAtStart
def afterBitXor := elsewhere afterBitXorAtStart
def afterBitAnd := elsewhere afterBitAndAtStart
def afterEquality := elsewhere afterEqualityAtStart
def afterRelational := elsewhere afterRelationalAtStart
def afterShift := elsewhere afterShiftAtStart
def afterAdditive := elsewhere afterAdditiveAtStart
def afterUnary := elsewhere afterMultiplicativeAtStart
def afterLeftHandSide := elsewhere afterLeftHandSideAtStart
def afterOperand := elsewhere afterPrimaryAtStart

def afterExpression : List Terminal :=
  [.colon, .rightParen, .rightBracket, .semicolon]

def afterMoreExpressions : List Terminal :=
  .comma :: afterExpression

def afterCaseClauses : List Terminal :=
  [.defaultWord, .caseWord, .rightBrace]

def statementEnds : List Terminal :=
  [ .regex, .number, .string, .identifier, .continueWord, .debuggerWord, .functionWord,
    .defaultWord, .deleteWord, .returnWord, .switchWord, .typeofWord, .breakWord, .falseWord,
    .throwWord, .whileWord, .caseWord, .nullWord, .thisWord, .trueWord, .voidWord, .withWord,
    .forWord, .newWord, .tryWord, .varWord, .updateOp, .doWord, .ifWord, .additiveOp, .unaryOp,
    .leftBrace, .leftParen, .leftBracket, .rightBrace, .leadingUpdateOp, .endOfInput ]

def afterStatements : List Terminal :=
  .semicolon :: statementEnds

def afterDoWhileStatement : List Terminal :=
  .elseWord :: statementEnds

def afterStatement : List Terminal :=
  .semicolon :: afterDoWhileStatement

def afterCatchClause : List Terminal :=
  .finallyWord :: afterStatement

def afterBlock : List Terminal :=
  .catchWord :: afterCatchClause ++ afterOperand

/-! ### The states -/

def block0 : List State :=
  [ ⟨.terminal .endOfInput, [], [(1, [.endOfInput])]⟩,
    ⟨.terminal .regex, literalStarts, [(197, afterOperand)]⟩,
    ⟨.terminal .number, literalStarts, [(195, afterOperand)]⟩,
    ⟨.terminal .string, literalStarts, [(196, afterOperand)]⟩,
    ⟨.terminal .identifier, statementStarts, [(127, afterPrimaryAtStart)]⟩,
    ⟨.terminal .continueWord, statementStarts, []⟩,
    ⟨.terminal .debuggerWord, statementStarts, []⟩,
    ⟨.terminal .functionWord, statementStarts, []⟩,
    ⟨.terminal .deleteWord, statementStarts, []⟩,
    ⟨.terminal .returnWord, statementStarts, []⟩,
    ⟨.terminal .switchWord, statementStarts, []⟩,
    ⟨.terminal .typeofWord, statementStarts, []⟩,
    ⟨.terminal .breakWord, statementStarts, []⟩,
    ⟨.terminal .falseWord, literalStarts, [(194, afterOperand)]⟩,
    ⟨.terminal .throwWord, statementStarts, []⟩,
    ⟨.terminal .whileWord, statementStarts, []⟩,
    ⟨.terminal .nullWord, literalStarts, [(192, afterOperand)]⟩,
    ⟨.terminal .thisWord, statementStarts, [(126, afterPrimaryAtStart)]⟩,
    ⟨.terminal .trueWord, literalStarts, [(193, afterOperand)]⟩,
    ⟨.terminal .voidWord, statementStarts, []⟩,
    ⟨.terminal .withWord, statementStarts, []⟩,
    ⟨.terminal .forWord, statementStarts, []⟩,
    ⟨.terminal .newWord, statementStarts, []⟩,
    ⟨.terminal .tryWord, statementStarts, []⟩,
    ⟨.terminal .varWord, statementStarts, []⟩,
    ⟨.terminal .updateOp, statementStarts, []⟩,
    ⟨.terminal .doWord, statementStarts, []⟩,
    ⟨.terminal .ifWord, statementStarts, []⟩,
    ⟨.terminal .additiveOp, statementStarts, []⟩,
    ⟨.terminal .unaryOp, statementStarts, []⟩,
    ⟨.terminal .leftBrace,
      [23, 233, 272, 275, 333, 334, 337, 366, 368, 380, 386] ++ statementStarts, []⟩,
    ⟨.terminal .leftParen, statementStarts, []⟩ ]

def block1 : List State :=
  [ ⟨.terminal .leftBracket, literalStarts, [(201, [.comma, .rightBracket])]⟩,
    ⟨.terminal .semicolon, statementStarts, [(28, afterStatement)]⟩,
    ⟨.terminal .leadingUpdateOp, statementStarts, []⟩,
    ⟨.nonterminal .program, [0], []⟩,
    ⟨.nonterminal .statement, [0, 30, 387, 399], [(215, afterStatements)]⟩,
    ⟨.nonterminal .block, statementStarts, [(2, afterStatement)]⟩,
    ⟨.nonterminal .variableStatement, statementStarts, [(3, afterStatement)]⟩,
    ⟨.nonterminal .emptyStatement, statementStarts, [(4, afterStatement)]⟩,
    ⟨.nonterminal .expressionStatement, statementStarts, [(5, afterStatement)]⟩,
    ⟨.nonterminal .ifStatement, statementStarts, [(6, afterStatement)]⟩,
    ⟨.nonterminal .doWhileStatement, statementStarts, [(7, afterStatement)]⟩,
    ⟨.nonterminal .whileStatement, statementStarts, [(8, afterStatement)]⟩,
    ⟨.nonterminal .forStatement, statementStarts, [(9, afterStatement)]⟩,
    ⟨.nonterminal .forInStatement, statementStarts, [(10, afterStatement)]⟩,
    ⟨.nonterminal .continueStatement, statementStarts, [(11, afterStatement)]⟩,
    ⟨.nonterminal .breakStatement, statementStarts, [(12, afterStatement)]⟩,
    ⟨.nonterminal .returnStatement, statementStarts, [(13, afterStatement)]⟩,
    ⟨.nonterminal .withStatement, statementStarts, [(14, afterStatement)]⟩,
    ⟨.nonterminal .switchStatement, statementStarts, [(15, afterStatement)]⟩,
    ⟨.nonterminal .labelledStatement, statementStarts, [(16, afterStatement)]⟩,
    ⟨.nonterminal .throwStatement, statementStarts, [(17, afterStatement)]⟩,
    ⟨.nonterminal .tryStatement, statementStarts, [(18, afterStatement)]⟩,
    ⟨.nonterminal .debuggerStatement, statementStarts, [(19, afterStatement)]⟩,
    ⟨.nonterminal .functionDeclaration, statementStarts, [(20, afterStatement)]⟩,
    ⟨.nonterminal (.expression .statement), statementStarts, []⟩,
    ⟨.nonterminal (.assignment .statement), statementStarts, [(75, [.semicolon])]⟩,
    ⟨.nonterminal (.conditional .statement), statementStarts, [(77, [.comma, .semicolon])]⟩,
    ⟨.nonterminal (.logicalOr .statement), statementStarts, [(80, [.comma, .semicolon])]⟩,
    ⟨.nonterminal (.logicalAnd .statement), statementStarts, [(82, afterLogicalOrAtStart)]⟩,
    ⟨.nonterminal (.bitOr .statement), statementStarts, [(84, afterLogicalAndAtStart)]⟩,
    ⟨.nonterminal (.bitXor .statement), statementStarts, [(86, afterBitOrAtStart)]⟩,
    ⟨.nonterminal (.bitAnd .statement), statementStarts, [(88, afterBitXorAtStart)]⟩ ]

def block2 : List State :=
  [ ⟨.nonterminal (.equality .statement), statementStarts, [(90, afterBitAndAtStart)]⟩,
    ⟨.nonterminal (.relational .statement), statementStarts, [(92, afterEqualityAtStart)]⟩,
    ⟨.nonterminal (.shift .statement), statementStarts, [(94, afterRelationalAtStart)]⟩,
    ⟨.nonterminal (.additive .statement), statementStarts, [(98, afterShiftAtStart)]⟩,
    ⟨.nonterminal (.multiplicative .statement), statementStarts, [(100, afterAdditiveAtStart)]⟩,
    ⟨.nonterminal (.unary .statement), statementStarts, [(102, afterMultiplicativeAtStart)]⟩,
    ⟨.nonterminal (.postfixed .statement), statementStarts, [(104, afterMultiplicativeAtStart)]⟩,
    ⟨.nonterminal (.leftHandSide .statement), statementStarts, [(112, afterMultiplicativeAtStart)]⟩,
    ⟨.nonterminal (.creation .statement), statementStarts, [(114, afterLeftHandSideAtStart)]⟩,
    ⟨.nonterminal (.member .statement), statementStarts, [(116, afterLeftHandSideAtStart)]⟩,
    ⟨.nonterminal (.application .statement), statementStarts, [(115, afterLeftHandSideAtStart)]⟩,
    ⟨.nonterminal (.primary .statement), statementStarts, [(118, afterPrimaryAtStart)]⟩,
    ⟨.nonterminal .literal, statementStarts, [(128, afterPrimaryAtStart)]⟩,
    ⟨.nonterminal .arrayLiteral, statementStarts, [(129, afterPrimaryAtStart)]⟩,
    ⟨.nonterminal .statements, [0], [(0, [.endOfInput])]⟩,
    ⟨.terminal .colon, [4], []⟩,
    ⟨.terminal .identifier, [5], []⟩,
    ⟨.terminal .semicolon, [5], [(46, afterStatement)]⟩,
    ⟨.terminal .semicolon, [6], [(66, afterStatement)]⟩,
    ⟨.terminal .identifier, [7], []⟩,
    ⟨.terminal .identifier, operandStarts, [(183, afterOperand)]⟩,
    ⟨.terminal .functionWord, operandStarts, []⟩,
    ⟨.terminal .deleteWord, unaryStarts, []⟩,
    ⟨.terminal .typeofWord, unaryStarts, []⟩,
    ⟨.terminal .thisWord, operandStarts, [(182, afterOperand)]⟩,
    ⟨.terminal .voidWord, unaryStarts, []⟩,
    ⟨.terminal .newWord, operandStarts, []⟩,
    ⟨.terminal .updateOp, unaryStarts, []⟩,
    ⟨.terminal .additiveOp, unaryStarts, []⟩,
    ⟨.terminal .unaryOp, unaryStarts, []⟩,
    ⟨.terminal .leftBrace, operandStarts, []⟩,
    ⟨.terminal .leftParen, operandStarts, []⟩ ]

def block3 : List State :=
  [ ⟨.terminal .leadingUpdateOp, unaryStarts, []⟩,
    ⟨.nonterminal .functionExpression, operandStarts, [(187, afterOperand)]⟩,
    ⟨.nonterminal (.unary .anywhere), [8], [(107, afterMultiplicativeAtStart)]⟩,
    ⟨.nonterminal (.postfixed .anywhere), unaryStarts, [(160, afterUnary)]⟩,
    ⟨.nonterminal (.leftHandSide .anywhere), operatorStates, [(168, afterUnary)]⟩,
    ⟨.nonterminal (.creation .anywhere), unaryStarts, [(170, afterLeftHandSide)]⟩,
    ⟨.nonterminal (.member .anywhere), unaryStarts, [(172, afterLeftHandSide)]⟩,
    ⟨.nonterminal (.application .anywhere), unaryStarts, [(171, afterLeftHandSide)]⟩,
    ⟨.nonterminal (.primary .anywhere), operandStarts, [(174, afterOperand)]⟩,
    ⟨.nonterminal .literal, operandStarts, [(184, afterOperand)]⟩,
    ⟨.nonterminal .arrayLiteral, operandStarts, [(185, afterOperand)]⟩,
    ⟨.nonterminal .objectLiteral, operandStarts, [(188, afterOperand)]⟩,
    ⟨.terminal .semicolon, [9], [(50, afterStatement)]⟩,
    ⟨.nonterminal (.expression .anywhere), [9], []⟩,
    ⟨.nonterminal (.assignment .anywhere), expressionStarts, [(131, afterExpression)]⟩,
    ⟨.nonterminal (.conditional .anywhere), assignmentStarts, [(133, afterAssignment)]⟩,
    ⟨.nonterminal (.logicalOr .anywhere), assignmentStarts, [(136, afterAssignment)]⟩,
    ⟨.nonterminal (.logicalAnd .anywhere), assignmentStarts, [(138, afterLogicalOr)]⟩,
    ⟨.nonterminal (.bitOr .anywhere), bitOrStarts, [(140, afterLogicalAnd)]⟩,
    ⟨.nonterminal (.bitXor .anywhere), bitXorStarts, [(142, afterBitOr)]⟩,
    ⟨.nonterminal (.bitAnd .anywhere), bitAndStarts, [(144, afterBitXor)]⟩,
    ⟨.nonterminal (.equality .anywhere), equalityStarts, [(146, afterBitAnd)]⟩,
    ⟨.nonterminal (.relational .anywhere), relationalStarts, [(148, afterEquality)]⟩,
    ⟨.nonterminal (.shift .anywhere), shiftStarts, [(150, afterRelational)]⟩,
    ⟨.nonterminal (.additive .anywhere), additiveStarts, [(154, afterShift)]⟩,
    ⟨.nonterminal (.multiplicative .anywhere), multiplicativeStarts, [(156, afterAdditive)]⟩,
    ⟨.nonterminal (.unary .anywhere), [164, 220] ++ multiplicativeStarts, [(158, afterUnary)]⟩,
    ⟨.nonterminal (.leftHandSide .anywhere), assignmentStarts, [(168, afterUnary)]⟩,
    ⟨.terminal .leftParen, [10], []⟩,
    ⟨.nonterminal (.unary .anywhere), [11], [(109, afterMultiplicativeAtStart)]⟩,
    ⟨.terminal .identifier, [12], []⟩,
    ⟨.terminal .semicolon, [12], [(48, afterStatement)]⟩ ]

def block4 : List State :=
  [ ⟨.nonterminal (.expression .anywhere), [14], []⟩,
    ⟨.terminal .leftParen, [15], []⟩,
    ⟨.nonterminal (.unary .anywhere), [19], [(108, afterMultiplicativeAtStart)]⟩,
    ⟨.terminal .leftParen, [20], []⟩,
    ⟨.terminal .leftParen, [21], [(37, [.semicolon])]⟩,
    ⟨.nonterminal (.creation .anywhere), [22], [(117, afterLeftHandSideAtStart)]⟩,
    ⟨.nonterminal (.member .anywhere), [22], [(172, afterLeftHandSideAtStart)]⟩,
    ⟨.nonterminal .block, [23], [(63, afterStatement)]⟩,
    ⟨.terminal .identifier, [24, 239, 318], [(27, [.comma, .semicolon])]⟩,
    ⟨.nonterminal .declarators, [24], []⟩,
    ⟨.nonterminal .declarator, [24, 229], [(25, [.semicolon])]⟩,
    ⟨.nonterminal (.unary .anywhere), [25], [(110, afterMultiplicativeAtStart)]⟩,
    ⟨.nonterminal .statement, [26], []⟩,
    ⟨.terminal .leftParen, [27], []⟩,
    ⟨.nonterminal (.unary .anywhere), [28], [(106, afterMultiplicativeAtStart)]⟩,
    ⟨.nonterminal (.unary .anywhere), [29], [(105, afterMultiplicativeAtStart)]⟩,
    ⟨.terminal .rightBrace, [30], [(22, afterBlock)]⟩,
    ⟨.nonterminal .statements, [30], []⟩,
    ⟨.nonterminal (.expression .anywhere), [31], []⟩,
    ⟨.nonterminal (.assignment .anywhere), [32, 245, 322], [(200, [.comma, .rightBracket])]⟩,
    ⟨.nonterminal .arrayItem, [32], []⟩,
    ⟨.nonterminal (.unary .anywhere), [34], [(111, afterMultiplicativeAtStart)]⟩,
    ⟨.terminal .semicolon, [56], [(29, afterStatement)]⟩,
    ⟨.terminal .comma, [57, 110, 267], []⟩,
    ⟨.nonterminal .moreExpressions, [57], [(76, [.semicolon])]⟩,
    ⟨.terminal .orOp, [59], []⟩,
    ⟨.terminal .question, [59], []⟩,
    ⟨.terminal .andOp, [60], []⟩,
    ⟨.terminal .bitOr, [61], []⟩,
    ⟨.terminal .bitXor, [62], []⟩,
    ⟨.terminal .bitAnd, [63], []⟩,
    ⟨.terminal .equalityOp, [64], []⟩ ]

def block5 : List State :=
  [ ⟨.terminal .instanceofWord, [65], []⟩,
    ⟨.terminal .relationalOp, [65], []⟩,
    ⟨.terminal .inWord, [65], []⟩,
    ⟨.terminal .shiftOp, [66], []⟩,
    ⟨.terminal .additiveOp, [67], []⟩,
    ⟨.terminal .multiplicativeOp, [68], []⟩,
    ⟨.terminal .assignOp, [71], []⟩,
    ⟨.terminal .updateOp, [71], [(113, afterMultiplicativeAtStart)]⟩,
    ⟨.terminal .equals, [71], []⟩,
    ⟨.terminal .dot, [73], []⟩,
    ⟨.terminal .leftParen, [73, 74, 102, 103, 134, 186], []⟩,
    ⟨.terminal .leftBracket, [73], []⟩,
    ⟨.nonterminal .arguments, [73], [(122, afterPrimaryAtStart)]⟩,
    ⟨.terminal .dot, [74], []⟩,
    ⟨.terminal .leftBracket, [74], []⟩,
    ⟨.nonterminal .arguments, [74], [(123, afterPrimaryAtStart)]⟩,
    ⟨.nonterminal .statement, [78, 145, 398, 402], [(216, afterStatements)]⟩,
    ⟨.nonterminal .statement, [79], [(58, afterStatement)]⟩,
    ⟨.terminal .semicolon, [80], [(45, afterStatement)]⟩,
    ⟨.terminal .leftParen, [83], []⟩,
    ⟨.terminal .identifier, [85], []⟩,
    ⟨.terminal .leftParen, [85], []⟩,
    ⟨.nonterminal (.unary .anywhere), [86], [(163, afterUnary)]⟩,
    ⟨.nonterminal (.unary .anywhere), [87], [(165, afterUnary)]⟩,
    ⟨.nonterminal (.unary .anywhere), [89], [(164, afterUnary)]⟩,
    ⟨.nonterminal (.creation .anywhere), [90], [(173, afterLeftHandSide)]⟩,
    ⟨.nonterminal (.member .anywhere), [90], [(172, afterLeftHandSide)]⟩,
    ⟨.nonterminal (.unary .anywhere), [91], [(166, afterUnary)]⟩,
    ⟨.nonterminal (.unary .anywhere), [92], [(162, afterUnary)]⟩,
    ⟨.nonterminal (.unary .anywhere), [93], [(161, afterUnary)]⟩,
    ⟨.terminal .number, [94, 193, 194, 282, 342], [(214, [.colon, .leftParen])]⟩,
    ⟨.terminal .string, [94, 193, 194, 282, 342], [(213, [.colon, .leftParen])]⟩ ]

def block6 : List State :=
  [ ⟨.terminal .identifier, [94, 193, 194, 282, 342], [(210, [.colon, .leftParen])]⟩,
    ⟨.terminal .getWord, [94, 282, 342], [(211, [.colon])]⟩,
    ⟨.terminal .setWord, [94, 282, 342], [(212, [.colon])]⟩,
    ⟨.terminal .rightBrace, [94], [(206, afterOperand)]⟩,
    ⟨.nonterminal .property, [94], []⟩,
    ⟨.nonterminal .propertyName, [94, 282, 342], []⟩,
    ⟨.nonterminal (.expression .anywhere), [95], []⟩,
    ⟨.nonterminal (.unary .anywhere), [96], [(167, afterUnary)]⟩,
    ⟨.terminal .updateOp, [100, 123], [(169, afterUnary)]⟩,
    ⟨.terminal .dot, [102, 134, 186], []⟩,
    ⟨.terminal .leftBracket, [102, 134, 186], []⟩,
    ⟨.nonterminal .arguments, [102], [(178, afterOperand)]⟩,
    ⟨.terminal .dot, [103], []⟩,
    ⟨.terminal .leftBracket, [103], []⟩,
    ⟨.nonterminal .arguments, [103], [(179, afterOperand)]⟩,
    ⟨.terminal .semicolon, [109], [(49, afterStatement)]⟩,
    ⟨.nonterminal .moreExpressions, [110], [(132, afterExpression)]⟩,
    ⟨.terminal .orOp, [112], []⟩,
    ⟨.terminal .question, [112], []⟩,
    ⟨.terminal .andOp, [113, 250, 291], []⟩,
    ⟨.terminal .bitOr, [114, 252, 293], []⟩,
    ⟨.terminal .bitXor, [115, 253, 294], []⟩,
    ⟨.terminal .bitAnd, [116, 254, 295], []⟩,
    ⟨.terminal .equalityOp, [117, 255, 296], []⟩,
    ⟨.terminal .instanceofWord, [118, 256, 297], []⟩,
    ⟨.terminal .relationalOp, [118, 256, 297], []⟩,
    ⟨.terminal .inWord, [118, 256, 297], []⟩,
    ⟨.terminal .shiftOp, [119, 257, 258, 259, 298, 299, 300], []⟩,
    ⟨.terminal .additiveOp, [120, 260, 301], []⟩,
    ⟨.terminal .multiplicativeOp, [121, 261, 302], []⟩,
    ⟨.terminal .assignOp, [123], []⟩,
    ⟨.terminal .equals, [123], []⟩ ]

def block7 : List State :=
  [ ⟨.nonterminal (.expression .anywhere), [124], []⟩,
    ⟨.terminal .semicolon, [126], [(47, afterStatement)]⟩,
    ⟨.terminal .semicolon, [128], [(59, afterStatement)]⟩,
    ⟨.nonterminal (.expression .anywhere), [129], []⟩,
    ⟨.nonterminal (.expression .anywhere), [131], []⟩,
    ⟨.terminal .varWord, [132], []⟩,
    ⟨.nonterminal .forInit, [132], []⟩,
    ⟨.nonterminal (.expression .anywhere), [132], [(36, [.semicolon])]⟩,
    ⟨.nonterminal .arguments, [134], [(121, afterPrimaryAtStart)]⟩,
    ⟨.terminal .finallyWord, [135, 235], []⟩,
    ⟨.terminal .catchWord, [135], []⟩,
    ⟨.nonterminal .catchClause, [135], [(61, afterStatement)]⟩,
    ⟨.nonterminal .finallyClause, [135], [(62, afterStatement)]⟩,
    ⟨.terminal .equals, [136, 309], []⟩,
    ⟨.terminal .semicolon, [137], [(23, afterStatement)]⟩,
    ⟨.terminal .comma, [138], []⟩,
    ⟨.nonterminal .moreDeclarators, [138], [(24, [.semicolon])]⟩,
    ⟨.terminal .whileWord, [140], []⟩,
    ⟨.nonterminal (.expression .anywhere), [141], []⟩,
    ⟨.terminal .rightBrace, [145], [(21, afterBlock)]⟩,
    ⟨.terminal .rightParen, [146], [(130, afterPrimaryAtStart)]⟩,
    ⟨.terminal .comma, [148], [(201, [.comma, .rightBracket])]⟩,
    ⟨.terminal .rightBracket, [148], [(199, afterOperand)]⟩,
    ⟨.nonterminal .moreItems, [148], []⟩,
    ⟨.nonterminal (.assignment .anywhere), [151], [(223, afterMoreExpressions)]⟩,
    ⟨.terminal .comma, [152, 208, 327], []⟩,
    ⟨.nonterminal (.logicalAnd .anywhere), [153], [(83, afterLogicalOrAtStart)]⟩,
    ⟨.nonterminal (.assignment .anywhere), [154], []⟩,
    ⟨.nonterminal (.bitOr .anywhere), [155], [(85, afterLogicalAndAtStart)]⟩,
    ⟨.nonterminal (.bitXor .anywhere), [156], [(87, afterBitOrAtStart)]⟩,
    ⟨.nonterminal (.bitAnd .anywhere), [157], [(89, afterBitXorAtStart)]⟩,
    ⟨.nonterminal (.equality .anywhere), [158], [(91, afterBitAndAtStart)]⟩ ]

def block8 : List State :=
  [ ⟨.nonterminal (.relational .anywhere), [159], [(93, afterEqualityAtStart)]⟩,
    ⟨.nonterminal (.shift .anywhere), [160], [(96, afterRelationalAtStart)]⟩,
    ⟨.nonterminal (.shift .anywhere), [161], [(95, afterRelationalAtStart)]⟩,
    ⟨.nonterminal (.shift .anywhere), [162], [(97, afterRelationalAtStart)]⟩,
    ⟨.nonterminal (.additive .anywhere), [163], [(99, afterShiftAtStart)]⟩,
    ⟨.nonterminal (.multiplicative .anywhere), [164], [(101, afterAdditiveAtStart)]⟩,
    ⟨.nonterminal (.unary .anywhere), [165], [(103, afterMultiplicativeAtStart)]⟩,
    ⟨.nonterminal (.assignment .anywhere), [166], [(79, [.comma, .semicolon])]⟩,
    ⟨.nonterminal (.assignment .anywhere), [168], [(78, [.comma, .semicolon])]⟩,
    ⟨.terminal .identifier, [169], [(120, afterPrimaryAtStart)]⟩,
    ⟨.terminal .rightParen, [170], [(191, afterOperand)]⟩,
    ⟨.nonterminal (.assignment .anywhere), [170], []⟩,
    ⟨.nonterminal (.expression .anywhere), [171], []⟩,
    ⟨.terminal .identifier, [173], [(125, afterPrimaryAtStart)]⟩,
    ⟨.nonterminal (.expression .anywhere), [174], []⟩,
    ⟨.terminal .identifier, [179, 181, 274], [(74, [.rightParen])]⟩,
    ⟨.terminal .rightParen, [179], []⟩,
    ⟨.nonterminal .parameters, [179], []⟩,
    ⟨.terminal .leftParen, [180], []⟩,
    ⟨.terminal .rightParen, [181], []⟩,
    ⟨.nonterminal .parameters, [181], []⟩,
    ⟨.nonterminal .arguments, [186], [(177, afterOperand)]⟩,
    ⟨.terminal .getWord, [193, 194], [(211, [.leftParen])]⟩,
    ⟨.terminal .setWord, [193, 194], [(212, [.leftParen])]⟩,
    ⟨.nonterminal .propertyName, [193], []⟩,
    ⟨.nonterminal .propertyName, [194], []⟩,
    ⟨.terminal .comma, [196], []⟩,
    ⟨.terminal .rightBrace, [196], [(205, afterOperand)]⟩,
    ⟨.nonterminal .moreProperties, [196], []⟩,
    ⟨.terminal .colon, [197], []⟩,
    ⟨.terminal .rightParen, [198], [(186, afterOperand)]⟩,
    ⟨.terminal .identifier, [201], [(176, afterOperand)]⟩ ]

def block9 : List State :=
  [ ⟨.nonterminal (.expression .anywhere), [202], []⟩,
    ⟨.terminal .identifier, [204], [(181, afterOperand)]⟩,
    ⟨.nonterminal (.expression .anywhere), [205], []⟩,
    ⟨.nonterminal (.logicalAnd .anywhere), [209], [(139, afterLogicalOr)]⟩,
    ⟨.nonterminal (.assignment .anywhere), [210], []⟩,
    ⟨.nonterminal (.bitOr .anywhere), [211], [(141, afterLogicalAnd)]⟩,
    ⟨.nonterminal (.bitXor .anywhere), [212], [(143, afterBitOr)]⟩,
    ⟨.nonterminal (.bitAnd .anywhere), [213], [(145, afterBitXor)]⟩,
    ⟨.nonterminal (.equality .anywhere), [214], [(147, afterBitAnd)]⟩,
    ⟨.nonterminal (.relational .anywhere), [215], [(149, afterEquality)]⟩,
    ⟨.nonterminal (.shift .anywhere), [216], [(152, afterRelational)]⟩,
    ⟨.nonterminal (.shift .anywhere), [217], [(151, afterRelational)]⟩,
    ⟨.nonterminal (.shift .anywhere), [218], [(153, afterRelational)]⟩,
    ⟨.nonterminal (.additive .anywhere), [219], [(155, afterShift)]⟩,
    ⟨.nonterminal (.multiplicative .anywhere), [220], [(157, afterAdditive)]⟩,
    ⟨.nonterminal (.unary .anywhere), [221], [(159, afterUnary)]⟩,
    ⟨.nonterminal (.assignment .anywhere), [222], [(135, afterAssignment)]⟩,
    ⟨.nonterminal (.assignment .anywhere), [223], [(134, afterAssignment)]⟩,
    ⟨.terminal .rightParen, [224], []⟩,
    ⟨.terminal .rightParen, [227], []⟩,
    ⟨.terminal .rightParen, [228], []⟩,
    ⟨.terminal .identifier, [229], [(27, [.comma, .semicolon])]⟩,
    ⟨.nonterminal .declarators, [229], [(38, [.semicolon])]⟩,
    ⟨.terminal .semicolon, [230], [(40, [.semicolon])]⟩,
    ⟨.terminal .rightParen, [231], []⟩,
    ⟨.nonterminal .block, [233], [(65, afterStatement)]⟩,
    ⟨.terminal .leftParen, [234], []⟩,
    ⟨.nonterminal .finallyClause, [235], [(60, afterStatement)]⟩,
    ⟨.nonterminal (.assignment .anywhere), [237], [(26, [.comma, .semicolon])]⟩,
    ⟨.nonterminal .declarator, [239], [(217, [.comma, .semicolon])]⟩,
    ⟨.terminal .comma, [240], []⟩,
    ⟨.terminal .leftParen, [241], []⟩ ]

def block10 : List State :=
  [ ⟨.terminal .rightParen, [242], []⟩,
    ⟨.nonterminal .arrayItem, [245], [(225, [.comma, .rightBracket])]⟩,
    ⟨.terminal .comma, [247], [(201, [.comma, .rightBracket])]⟩,
    ⟨.terminal .rightBracket, [247], [(198, afterOperand)]⟩,
    ⟨.nonterminal (.assignment .anywhere), [249], [(224, afterMoreExpressions)]⟩,
    ⟨.terminal .colon, [251], []⟩,
    ⟨.terminal .rightParen, [267], [(190, afterOperand)]⟩,
    ⟨.nonterminal .moreExpressions, [267], []⟩,
    ⟨.terminal .rightBracket, [268], [(119, afterPrimaryAtStart)]⟩,
    ⟨.terminal .rightBracket, [270], [(124, afterPrimaryAtStart)]⟩,
    ⟨.terminal .comma, [271], []⟩,
    ⟨.nonterminal .moreParameters, [271], [(73, [.rightParen])]⟩,
    ⟨.nonterminal .block, [272], [(68, afterStatement)]⟩,
    ⟨.terminal .rightParen, [273], []⟩,
    ⟨.terminal .rightParen, [274], []⟩,
    ⟨.nonterminal .parameters, [274], []⟩,
    ⟨.nonterminal .block, [275], [(72, afterOperand)]⟩,
    ⟨.terminal .rightParen, [276], []⟩,
    ⟨.terminal .leftParen, [280], []⟩,
    ⟨.terminal .leftParen, [281], []⟩,
    ⟨.terminal .rightBrace, [282], [(204, afterOperand)]⟩,
    ⟨.nonterminal .property, [282], [(227, [.comma, .rightBrace])]⟩,
    ⟨.terminal .comma, [284], []⟩,
    ⟨.terminal .rightBrace, [284], [(203, afterOperand)]⟩,
    ⟨.nonterminal (.assignment .anywhere), [285], [(207, [.comma, .rightBrace])]⟩,
    ⟨.terminal .rightBracket, [288], [(175, afterOperand)]⟩,
    ⟨.terminal .rightBracket, [290], [(180, afterOperand)]⟩,
    ⟨.terminal .colon, [292], []⟩,
    ⟨.terminal .leftBrace, [306], []⟩,
    ⟨.nonterminal .statement, [307], [(34, afterStatement)]⟩,
    ⟨.nonterminal .statement, [308], [(51, afterStatement)]⟩,
    ⟨.terminal .inWord, [309], []⟩ ]

def block11 : List State :=
  [ ⟨.nonterminal .forTest, [311], []⟩,
    ⟨.nonterminal (.expression .anywhere), [311], [(39, [.semicolon])]⟩,
    ⟨.nonterminal .statement, [312], [(43, afterStatement)]⟩,
    ⟨.terminal .identifier, [314], []⟩,
    ⟨.nonterminal .declarator, [318], [(218, [.comma, .semicolon])]⟩,
    ⟨.nonterminal (.expression .anywhere), [319], []⟩,
    ⟨.nonterminal .statement, [320], [(31, afterStatements)]⟩,
    ⟨.nonterminal .arrayItem, [322], [(226, [.comma, .rightBracket])]⟩,
    ⟨.nonterminal (.assignment .anywhere), [325], [(81, [.comma, .semicolon])]⟩,
    ⟨.terminal .rightParen, [327], [(189, afterOperand)]⟩,
    ⟨.terminal .identifier, [330], [(221, [.comma, .rightParen])]⟩,
    ⟨.terminal .comma, [331], []⟩,
    ⟨.nonterminal .block, [333], [(67, afterStatement)]⟩,
    ⟨.nonterminal .block, [334], [(70, afterOperand)]⟩,
    ⟨.terminal .rightParen, [335], []⟩,
    ⟨.nonterminal .block, [337], [(71, afterOperand)]⟩,
    ⟨.terminal .rightParen, [338], []⟩,
    ⟨.terminal .identifier, [339], []⟩,
    ⟨.terminal .rightBrace, [342], [(202, afterOperand)]⟩,
    ⟨.nonterminal .property, [342], [(228, [.comma, .rightBrace])]⟩,
    ⟨.nonterminal (.assignment .anywhere), [347], [(137, afterAssignment)]⟩,
    ⟨.terminal .defaultWord, [348, 377], []⟩,
    ⟨.terminal .caseWord, [348, 377], []⟩,
    ⟨.terminal .rightBrace, [348], [(53, afterStatement)]⟩,
    ⟨.nonterminal .caseClause, [348], [(219, afterCaseClauses)]⟩,
    ⟨.nonterminal .caseClauses, [348], []⟩,
    ⟨.nonterminal (.expression .anywhere), [351], []⟩,
    ⟨.terminal .semicolon, [352], [(42, [.rightParen])]⟩,
    ⟨.terminal .rightParen, [355], []⟩,
    ⟨.terminal .rightParen, [357], [(33, afterDoWhileStatement)]⟩,
    ⟨.terminal .elseWord, [358], []⟩,
    ⟨.terminal .identifier, [363], [(222, [.comma, .rightParen])]⟩ ]

def block12 : List State :=
  [ ⟨.nonterminal .block, [366], [(69, afterOperand)]⟩,
    ⟨.nonterminal .block, [368], [(208, [.comma, .rightBrace])]⟩,
    ⟨.terminal .rightParen, [369], []⟩,
    ⟨.terminal .colon, [373], [(57, afterCaseClauses)]⟩,
    ⟨.nonterminal (.expression .anywhere), [374], []⟩,
    ⟨.terminal .rightBrace, [377], [(52, afterStatement)]⟩,
    ⟨.nonterminal .caseClause, [377], [(220, afterCaseClauses)]⟩,
    ⟨.terminal .rightParen, [378], []⟩,
    ⟨.nonterminal .forUpdate, [379], []⟩,
    ⟨.nonterminal (.expression .anywhere), [379], [(41, [.rightParen])]⟩,
    ⟨.nonterminal .block, [380], [(64, afterCatchClause)]⟩,
    ⟨.terminal .semicolon, [381], [(32, afterStatement)]⟩,
    ⟨.nonterminal .statement, [382], [(30, afterStatement)]⟩,
    ⟨.nonterminal .block, [386], [(209, [.comma, .rightBrace])]⟩,
    ⟨.nonterminal .statements, [387], [(56, afterCaseClauses)]⟩,
    ⟨.terminal .colon, [388], [(55, afterCaseClauses)]⟩,
    ⟨.nonterminal .statement, [391], [(44, afterStatement)]⟩,
    ⟨.terminal .rightParen, [392], []⟩,
    ⟨.nonterminal .statements, [399], [(54, afterCaseClauses)]⟩,
    ⟨.nonterminal .statement, [401], [(35, afterStatement)]⟩ ]

def states : List State :=
  List.flatten
    [ block0, block1, block2, block3, block4, block5, block6, block7, block8, block9, block10,
      block11, block12 ]

end Namesake.Automaton
