import Namesake.Text
import Namesake.Text.Printable

/-!
A text is put between single quotes, or between double quotes if it holds a single quote
and no double quote.  The quote in use and the backslash are escaped, the three common
control characters by a letter, and every character that cannot be printed by its number.
-/

namespace Namesake.Text

/-- The lower-case hexadecimal digits of a number, padded with zeros to a width. -/
def hexDigits (width value : Nat) : String :=
  let digits := Nat.toDigits 16 value
  String.ofList (List.replicate (width - digits.length) '0' ++ digits)

def quotedPoint (quote point : Nat) : String :=
  if point == quote || point == 0x5C then String.ofList ['\\', Char.ofNat point]
  else if point == 0x0A then "\\n"
  else if point == 0x0D then "\\r"
  else if point == 0x09 then "\\t"
  else if isPrintable point then String.singleton (Char.ofNat point)
  else if point ≤ 0xFF then "\\x" ++ hexDigits 2 point
  else if point ≤ 0xFFFF then "\\u" ++ hexDigits 4 point
  else "\\U" ++ hexDigits 8 point

/-- The quote that surrounds a text: the double quote only where it spares an escape. -/
def quoteFor (text : Text) : Nat :=
  if text.points.contains 0x27 && !text.points.contains 0x22 then 0x22 else 0x27

def quoted (text : Text) : String :=
  let quote := quoteFor text
  let mark := String.singleton (Char.ofNat quote)
  mark ++ String.join (text.points.map (quotedPoint quote)) ++ mark

end Namesake.Text
