import Namesake.Text.Ranges

/-!
Blank characters: those that separate tokens and mean nothing else.
-/

namespace Namesake.Text

/-- The blank characters: the ASCII separators and the spaces of Unicode.  The zero-width space
and the byte order mark are not blank. -/
def blankRanges : Ranges :=
  [ (0x9, 0xD), (0x1C, 0x20), (0x85, 0x85), (0xA0, 0xA0), (0x1680, 0x1680), (0x2000, 0x200A),
    (0x2028, 0x2029), (0x202F, 0x202F), (0x205F, 0x205F), (0x3000, 0x3000) ]

def isBlank (point : Nat) : Bool :=
  blankRanges.contains point

end Namesake.Text
