/-!
Offsets count characters from the start of a text, lines count from one and columns from zero.
A `LineIndex` turns offsets into lines and columns.
-/

namespace Namesake

structure Position where
  offset : Int
  line : Int
  column : Int
deriving DecidableEq, Inhabited

/-- Where the lines of one source text start.  Only the newline character ends a line. -/
structure LineIndex where
  starts : List Nat
deriving DecidableEq, Inhabited

namespace LineIndex

def startsFrom (offset : Nat) : List Char → List Nat
  | [] => []
  | char :: rest =>
    if char = '\n' then (offset + 1) :: startsFrom (offset + 1) rest
    else startsFrom (offset + 1) rest

def ofSource (source : String) : LineIndex :=
  ⟨0 :: startsFrom 0 source.toList⟩

/-- The start of the line that follows some line starts, or of the last line if there are none. -/
def startOfLast (index : LineIndex) (before : List Nat) : Nat :=
  (before.getLast?.or index.starts.getLast?).getD 0

/-- The position of an offset: its line is the number of lines that start at or before it.  Before
the first line there is none, and the column is then measured from the start of the last line. -/
def position (index : LineIndex) (offset : Int) : Position :=
  let before := index.starts.filter fun (start : Nat) => (start : Int) ≤ offset
  ⟨offset, before.length, offset - index.startOfLast before⟩

end LineIndex

end Namesake
