import Namesake.Position

/-!
A `Terminal` is a kind of token that the grammar knows.  The constructors stand in the
order in which a reader tries them at a place of the text: the first that matches wins,
even where a later one would match more.  `Token` is one occurrence with its extent.
-/

namespace Namesake

inductive Terminal where
  | regex
  | number
  | string
  | identifier
  | instanceofWord
  | continueWord
  | debuggerWord
  | functionWord
  | defaultWord
  | finallyWord
  | deleteWord
  | returnWord
  | switchWord
  | typeofWord
  | breakWord
  | catchWord
  | falseWord
  | throwWord
  | whileWord
  | assignOp
  | caseWord
  | elseWord
  | nullWord
  | thisWord
  | trueWord
  | voidWord
  | withWord
  | equalityOp
  | shiftOp
  | forWord
  | getWord
  | newWord
  | setWord
  | tryWord
  | varWord
  | relationalOp
  | updateOp
  | andOp
  | doWord
  | ifWord
  | inWord
  | orOp
  | multiplicativeOp
  | additiveOp
  | unaryOp
  | bitAnd
  | bitOr
  | bitXor
  | colon
  | comma
  | dot
  | equals
  | leftBrace
  | leftParen
  | leftBracket
  | question
  | rightBrace
  | rightParen
  | rightBracket
  | semicolon
  /-- An increment or decrement that starts a line and so cannot follow an operand. -/
  | leadingUpdateOp
  | endOfInput
deriving DecidableEq, Inhabited

namespace Terminal

def all : List Terminal :=
  [ regex, number, string, identifier, instanceofWord, continueWord, debuggerWord, functionWord,
    defaultWord, finallyWord, deleteWord, returnWord, switchWord, typeofWord, breakWord, catchWord,
    falseWord, throwWord, whileWord, assignOp, caseWord, elseWord, nullWord, thisWord, trueWord,
    voidWord, withWord, equalityOp, shiftOp, forWord, getWord, newWord, setWord, tryWord, varWord,
    relationalOp, updateOp, andOp, doWord, ifWord, inWord, orOp, multiplicativeOp, additiveOp,
    unaryOp, bitAnd, bitOr, bitXor, colon, comma, dot, equals, leftBrace, leftParen, leftBracket,
    question, rightBrace, rightParen, rightBracket, semicolon, leadingUpdateOp, endOfInput ]

/-- The fixed spellings of a kind, a longer one before each of its beginnings.  Kinds that have
no fixed spelling give none. -/
def spellings : Terminal → List String
  | regex | number | string | identifier | leadingUpdateOp | endOfInput => []
  | instanceofWord => ["instanceof"]
  | continueWord => ["continue"]
  | debuggerWord => ["debugger"]
  | functionWord => ["function"]
  | defaultWord => ["default"]
  | finallyWord => ["finally"]
  | deleteWord => ["delete"]
  | returnWord => ["return"]
  | switchWord => ["switch"]
  | typeofWord => ["typeof"]
  | breakWord => ["break"]
  | catchWord => ["catch"]
  | falseWord => ["false"]
  | throwWord => ["throw"]
  | whileWord => ["while"]
  | assignOp => [">>>=", "<<=", ">>=", "*=", "/=", "%=", "+=", "-=", "&=", "^=", "|="]
  | caseWord => ["case"]
  | elseWord => ["else"]
  | nullWord => ["null"]
  | thisWord => ["this"]
  | trueWord => ["true"]
  | voidWord => ["void"]
  | withWord => ["with"]
  | equalityOp => ["===", "!==", "==", "!="]
  | shiftOp => [">>>", "<<", ">>"]
  | forWord => ["for"]
  | getWord => ["get"]
  | newWord => ["new"]
  | setWord => ["set"]
  | tryWord => ["try"]
  | varWord => ["var"]
  | relationalOp => ["<=", ">=", "<", ">"]
  | updateOp => ["++", "--"]
  | andOp => ["&&"]
  | doWord => ["do"]
  | ifWord => ["if"]
  | inWord => ["in"]
  | orOp => ["||"]
  | multiplicativeOp => ["*", "/", "%"]
  | additiveOp => ["+", "-"]
  | unaryOp => ["!", "~"]
  | bitAnd => ["&"]
  | bitOr => ["|"]
  | bitXor => ["^"]
  | colon => [":"]
  | comma => [","]
  | dot => ["."]
  | equals => ["="]
  | leftBrace => ["\x7b"]
  | leftParen => ["("]
  | leftBracket => ["["]
  | question => ["?"]
  | rightBrace => ["\x7d"]
  | rightParen => [")"]
  | rightBracket => ["]"]
  | semicolon => [";"]

def isKeyword : Terminal → Bool
  | instanceofWord | continueWord | debuggerWord | functionWord | defaultWord | finallyWord
  | deleteWord | returnWord | switchWord | typeofWord | breakWord | catchWord | falseWord
  | throwWord | whileWord | caseWord | elseWord | nullWord | thisWord | trueWord | voidWord
  | withWord | forWord | getWord | newWord | setWord | tryWord | varWord | doWord | ifWord
  | inWord => true
  | _ => false

/-- The kinds whose spelling the syntax tree keeps: names, literals and operators.  Punctuation and
the words that only mark a construct are not kept. -/
def isContent : Terminal → Bool
  | regex | number | string | identifier | instanceofWord | deleteWord | typeofWord | assignOp
  | voidWord | equalityOp | shiftOp | getWord | setWord | relationalOp | updateOp | andOp | inWord
  | orOp | multiplicativeOp | additiveOp | unaryOp | bitAnd | bitOr | bitXor | equals
  | leadingUpdateOp => true
  | _ => false

end Terminal

/-- The words after which a line break ends the statement. -/
def Terminal.isRestricted : Terminal → Bool
  | returnWord | breakWord | continueWord | throwWord => true
  | _ => false

structure Extent where
  first : Position
  last : Position
deriving DecidableEq, Inhabited

def Extent.join : Option Extent → Option Extent → Option Extent
  | some left, some right => some ⟨left.first, right.last⟩
  | some left, none => some left
  | none, right => right

structure Token where
  kind : Terminal
  text : List Char
  extent : Extent
deriving DecidableEq, Inhabited

namespace Token

def semicolonAt (position : Position) : Token :=
  ⟨.semicolon, [';'], ⟨position, position⟩⟩

/-- The end of the text, reported at the start of the last token or of the text. -/
def endAfter (last : Option Token) : Token :=
  ⟨.endOfInput, [], (last.map Token.extent).getD ⟨⟨0, 1, 0⟩, ⟨0, 1, 0⟩⟩⟩

def startsLineAfter (token last : Token) : Bool :=
  last.extent.last.line < token.extent.first.line

end Token

end Namesake
