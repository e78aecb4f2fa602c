/-!
A string of the analysed language is a sequence of code points.  Escapes in a
string literal denote code points one at a time, so half of a surrogate pair may
stand alone; `Text` therefore holds plain numbers, and `Text.toString?` says when
such a value is an ordinary string.
-/

namespace Namesake

structure Text where
  points : List Nat
deriving DecidableEq, Hashable, Inhabited

namespace Text

def ofChars (chars : List Char) : Text :=
  ⟨chars.map Char.toNat⟩

def ofString (string : String) : Text :=
  ofChars string.toList

/-- Code points that belong to a surrogate pair and are no character alone. -/
def isSurrogate (point : Nat) : Bool :=
  0xD800 ≤ point && point ≤ 0xDFFF

/-- The string with the same code points, unless a surrogate is among them. -/
def toString? (text : Text) : Option String :=
  if text.points.any isSurrogate then none
  else some (String.ofList (text.points.map Char.ofNat))

def isEmpty (text : Text) : Bool :=
  text.points.isEmpty

end Text

end Namesake
