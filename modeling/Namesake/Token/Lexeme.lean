import Namesake.Token
import Namesake.Text.Blank
import Namesake.Text.Digit
import Namesake.Text.Word

/-!
`Terminal.lexeme?` gives the number of characters that a token of a kind takes at the start
of a text, and `triviaLength` the number of characters that separate tokens there: blanks, a
line comment or a block comment.
-/

namespace Namesake

namespace Lexeme

def run (property : Char → Bool) (chars : List Char) : Nat :=
  (chars.takeWhile property).length

def isNamePart (char : Char) : Bool :=
  char == '$' || Text.isWord char.toNat

def isDecimalDigit (char : Char) : Bool :=
  Text.isDecimal char.toNat

def isHexDigit (char : Char) : Bool :=
  ('0' ≤ char && char ≤ '9') || ('a' ≤ char && char ≤ 'f') || ('A' ≤ char && char ≤ 'F')

def isLineEnd (char : Char) : Bool :=
  char == '\n' || char == '\r'

/-- A name: characters that an identifier may hold, of which the first is no decimal digit. -/
def name? : List Char → Option Nat
  | [] => none
  | char :: rest =>
    if isNamePart char && !isDecimalDigit char then some (run isNamePart (char :: rest)) else none

def exponentLength : List Char → Nat
  | [] => 0
  | mark :: rest =>
    if mark == 'e' || mark == 'E' then
      match rest with
      | [] => 0
      | sign :: digits =>
        if sign == '+' || sign == '-' then
          let count := run isDecimalDigit digits
          if count = 0 then 0 else 2 + count
        else
          let count := run isDecimalDigit rest
          if count = 0 then 0 else 1 + count
    else 0

def mantissa? (chars : List Char) : Option Nat :=
  let whole := run isDecimalDigit chars
  match chars.drop whole with
  | '.' :: rest =>
    let fraction := run isDecimalDigit rest
    if whole = 0 && fraction = 0 then none else some (whole + 1 + fraction)
  | _ => if whole = 0 then none else some whole

def decimal? (chars : List Char) : Option Nat :=
  (mantissa? chars).map fun length => length + exponentLength (chars.drop length)

def number? (chars : List Char) : Option Nat :=
  match chars with
  | '0' :: mark :: rest =>
    let count := run isHexDigit rest
    if (mark == 'x' || mark == 'X') && count ≠ 0 then some (2 + count) else decimal? chars
  | _ => decimal? chars

/-- The rest of a string behind its opening quote, up to and including the closing quote.  A
backslash takes any character with it; a line end outside an escape leaves the string open. -/
def stringTail? (quote : Char) : List Char → Option Nat
  | [] => none
  | [char] => if char = quote then some 1 else none
  | char :: next :: rest =>
    if char = quote then some 1
    else if char = '\\' then (stringTail? quote rest).map (· + 2)
    else if isLineEnd char then none
    else (stringTail? quote (next :: rest)).map (· + 1)

def string? : List Char → Option Nat
  | [] => none
  | quote :: rest =>
    if quote = '"' || quote = '\'' then (stringTail? quote rest).map (· + 1) else none

/-- The rest of a regular expression, up to and including the closing slash.  A slash between
brackets closes nothing, a backslash takes any character but a newline with it, and a line end
leaves the expression open. -/
def regexTail? (bracketed : Bool) : List Char → Option Nat
  | [] => none
  | [char] => if char = '/' && !bracketed then some 1 else none
  | char :: next :: rest =>
    if char = '/' && !bracketed then some 1
    else if char = '\\' then
      if next = '\n' then none else (regexTail? bracketed rest).map (· + 2)
    else if isLineEnd char then none
    else if char = '[' then (regexTail? true (next :: rest)).map (· + 1)
    else if char = ']' then (regexTail? false (next :: rest)).map (· + 1)
    else (regexTail? bracketed (next :: rest)).map (· + 1)

/-- A regular expression between slashes, with its flags.  Two slashes, or a slash and a star, start
a comment instead. -/
def regex? : List Char → Option Nat
  | '/' :: char :: rest =>
    if char = '*' || char = '/' then none
    else
      (regexTail? false (char :: rest)).map fun tail =>
        1 + tail + run isNamePart ((char :: rest).drop tail)
  | _ => none

def spelled? (spellings : List String) (chars : List Char) : Option Nat :=
  (spellings.find? fun spelling => spelling.toList.isPrefixOf chars).map String.length

def commentTail? : List Char → Option Nat
  | [] => none
  | [_] => none
  | char :: next :: rest =>
    if char = '*' && next = '/' then some 2
    else (commentTail? (next :: rest)).map (· + 1)

/-- The length of the blanks, the line comment or the block comment that a text starts with; zero if
it starts with none.  A block comment that is never closed is no comment. -/
def triviaLength (chars : List Char) : Nat :=
  match chars with
  | '/' :: '/' :: rest => 2 + run (fun char => !isLineEnd char) rest
  | '/' :: '*' :: rest => ((commentTail? rest).map (· + 2)).getD 0
  | _ => run (fun char => Text.isBlank char.toNat) chars

end Lexeme

def Terminal.lexeme? (kind : Terminal) (chars : List Char) : Option Nat :=
  match kind with
  | .regex => Lexeme.regex? chars
  | .number => Lexeme.number? chars
  | .string => Lexeme.string? chars
  | .identifier => Lexeme.name? chars
  | kind => Lexeme.spelled? kind.spellings chars

end Namesake
