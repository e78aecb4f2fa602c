import Namesake.Data
import Namesake.Token.Lexeme

/-!
`Literal.number?` gives the value of a number as it is spelled, if it is one, and
`Literal.string` the text that a string stands for.  Numbers without a sign, a point and an
exponent are integers of any size; a leading zero has no meaning.
-/

namespace Namesake.Literal

def hexValue? (char : Char) : Option Nat :=
  if '0' ≤ char && char ≤ '9' then some (char.toNat - '0'.toNat)
  else if 'a' ≤ char && char ≤ 'f' then some (char.toNat - 'a'.toNat + 10)
  else if 'A' ≤ char && char ≤ 'F' then some (char.toNat - 'A'.toNat + 10)
  else none

def hexNumber (digits : List Char) : Nat :=
  digits.foldl (fun value digit => 16 * value + (hexValue? digit).getD 0) 0

def decimalNumber (digits : List Char) : Nat :=
  digits.foldl (fun value digit => 10 * value + (hexValue? digit).getD 0) 0

def isBlankBeside (char : Char) : Bool :=
  char = ' ' || ('\t' ≤ char && char ≤ '\r')

/-- A character in the basic script: a digit of any script as the digit of the same value, and a blank
of any script as a space.  Any other character outside the basic script has no meaning. -/
def basic (char : Char) : Char :=
  if char.toNat < 127 then char
  else if Text.isBlank char.toNat then ' '
  else ((Text.digit? char.toNat).map Nat.digitChar).getD '?'

def trimEnd (chars : List Char) : List Char :=
  (chars.reverse.dropWhile isBlankBeside).reverse

/-- Drops the underscores, each of which has to stand between two digits.  `behindDigit` says whether
a digit stands just before. -/
def joinDigits? (isDigit : Char → Bool) (behindDigit : Bool) : List Char → Option (List Char)
  | [] => some []
  | ['_'] => none
  | '_' :: digit :: rest =>
    if behindDigit && isDigit digit then
      (joinDigits? isDigit true rest).map (digit :: ·)
    else none
  | char :: rest => (joinDigits? isDigit (isDigit char) rest).map (char :: ·)

def hexadecimal? (chars : List Char) : Option Nat := do
  let digits ← joinDigits? Lexeme.isHexDigit true chars
  guard (!digits.isEmpty && digits.all Lexeme.isHexDigit)
  return hexNumber digits

def exponent? : List Char → Option Int
  | [] => some 0
  | mark :: rest => do
      guard (mark = 'e' || mark = 'E')
      let digits := if rest.head? = some '+' || rest.head? = some '-' then rest.drop 1 else rest
      guard (!digits.isEmpty && digits.all Char.isDigit)
      return if rest.head? = some '-' then -(decimalNumber digits : Int) else decimalNumber digits

def magnitude? (chars : List Char) : Option Binary64 := do
  let (whole, rest) := chars.span Char.isDigit
  let (fraction, rest) :=
    match rest with
    | '.' :: behind => behind.span Char.isDigit
    | _ => ([], rest)
  if whole.isEmpty && fraction.isEmpty then
    let name := String.ofList (chars.map Char.toLower)
    if name = "inf" || name = "infinity" then some .infinity
    else if name = "nan" then some .notANumber
    else none
  else
    let exponent ← exponent? rest
    return .ofDecimal (decimalNumber (whole ++ fraction)) (exponent - fraction.length)

def decimal? (chars : List Char) : Option Binary64 := do
  match ← joinDigits? Char.isDigit false chars with
  | '-' :: rest => return (← magnitude? rest).negate
  | '+' :: rest => magnitude? rest
  | rest => magnitude? rest

/-- The value of a number.  Digits of any script may write it, blanks may stand around it and
underscores between its digits; digits alone are an integer. -/
def number? (chars : List Char) : Option Data :=
  let plain := chars.map basic
  match chars with
  | '0' :: 'x' :: _ => (hexadecimal? (trimEnd (plain.drop 2))).map fun value => .int value
  | '0' :: 'X' :: _ => (hexadecimal? (trimEnd (plain.drop 2))).map fun value => .int value
  | _ =>
    if !chars.isEmpty && chars.all Lexeme.isDecimalDigit then some (.int (decimalNumber plain))
    else (decimal? (trimEnd (plain.dropWhile isBlankBeside))).map .float

def number (chars : List Char) : Data :=
  (number? chars).getD .null

/-- The code points that a character behind a backslash stands for: a control character for some
letters, nothing for a line break, and itself otherwise. -/
def escaped (char : Char) : List Nat :=
  match char with
  | 'n' => [0x0A]
  | 't' => [0x09]
  | 'r' => [0x0D]
  | 'b' => [0x08]
  | 'f' => [0x0C]
  | 'v' => [0x0B]
  | '0' => [0x00]
  | '\n' => []
  | '\r' => []
  | '\u2028' => []
  | '\u2029' => []
  | char => [char.toNat]

def hexEscape? (count : Nat) (chars : List Char) : Option Nat :=
  let digits := chars.take count
  if digits.length = count && digits.all Lexeme.isHexDigit then some (hexNumber digits) else none

/-- The number of characters that an escape takes behind its backslash, and what it stands for.  An
`x` takes two hexadecimal digits with it and a `u` four, if they are there.  A backslash with
nothing behind it stands for itself. -/
def escape : List Char → Nat × List Nat
  | [] => (0, ['\\'.toNat])
  | char :: rest =>
    match char, hexEscape? 2 rest, hexEscape? 4 rest with
    | 'x', some point, _ => (3, [point])
    | 'u', _, some point => (5, [point])
    | '\r', _, _ => (if rest.head? = some '\n' then 2 else 1, [])
    | char, _, _ => (1, escaped char)

/-- The code points that the inside of a string stands for.  `skip` characters belong to an escape
and are passed over. -/
def decode (skip : Nat) : List Char → List Nat
  | [] => []
  | char :: rest =>
    match skip with
    | count + 1 => decode count rest
    | 0 =>
      if char = '\\' then
        let (count, points) := escape rest
        points ++ decode count rest
      else char.toNat :: decode 0 rest

def string (chars : List Char) : Text :=
  ⟨decode 0 (chars.drop 1).dropLast⟩

end Namesake.Literal
