import Namesake.Data.Number
import Namesake.Position

/-!
A `Location` is the extent of a syntax node, or of a token in a rename group.  A node that was
loaded from outside has whatever stands in place of its coordinates, so they are data here; what is
not a number is in no order and contains nothing.
-/

namespace Namesake

structure Mark where
  offset : Data
  line : Data
  column : Data
deriving Inhabited

def Position.mark (position : Position) : Mark :=
  ⟨.int position.offset, .int position.line, .int position.column⟩

namespace Mark

def render (mark : Mark) : String :=
  mark.line.display ++ ":" ++ mark.column.display

def advance? (mark : Mark) (count : Int) : Option Mark := do
  return { mark with
    offset := ← mark.offset.plus? (.int count), column := ← mark.column.plus? (.int count) }

def retreat? (mark : Mark) (count : Int) : Option Mark := do
  return { mark with
    offset := ← mark.offset.minus? (.int count), column := ← mark.column.minus? (.int count) }

end Mark

/-- The mark of an offset that may be any number: whole numbers have a position, and others are placed
between them. -/
def LineIndex.mark? (index : LineIndex) : Data → Option Mark
  | .int offset => some (index.position offset).mark
  | offset => do
      let before := index.starts.filter fun (start : Nat) => (Data.int start).atMost offset
      let column ← offset.minus? (.int (index.startOfLast before))
      return ⟨offset, .int before.length, column⟩

/-- An extent in a file: the characters from the first mark up to, not including, the last. -/
structure Location where
  file : String
  first : Mark
  last : Mark
deriving Inhabited

namespace Location

def between (file : String) (first last : Position) : Location :=
  ⟨file, first.mark, last.mark⟩

/-- Both ends count, so a cursor just behind a token still hits it. -/
def contains (location : Location) (offset : Data) : Bool :=
  location.first.offset.atMost offset && offset.atMost location.last.offset

def narrow? (location : Location) (file : String) (count : Int) : Option Location := do
  return ⟨file, ← location.first.advance? count, ← location.last.retreat? count⟩

/-- An offset as an index into a text of the given length: a negative one counts from the end,
and one outside the text is moved to the nearer end. -/
def clip (length : Nat) (offset : Int) : Nat :=
  if offset < 0 then (offset + length).toNat else min offset.toNat length

/-- The characters of a source between the two ends.  An end that is no whole number leaves that side
of the source uncut. -/
def text (location : Location) (source : String) : String :=
  let chars := source.toList
  let index (offset : Data) (uncut : Nat) : Nat :=
    (offset.whole?.map (clip chars.length)).getD uncut
  let start := index location.first.offset 0
  let stop := index location.last.offset chars.length
  String.ofList ((chars.drop start).take (stop - start))

def render (location : Location) : String :=
  location.file ++ ":" ++ location.first.render

def renderEnds (location : Location) : String :=
  location.render ++ "-" ++ location.last.render

end Location

end Namesake
