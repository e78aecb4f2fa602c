import Namesake.Binary64.Shortest
import Namesake.Text.Quoted

/-!
A syntax tree may come from outside as nested objects, lists and values.  `Data` is such a
value, and also what the attributes of a syntax node hold: a name, an operator, the value of
a literal.
-/

namespace Namesake

/-- A plain value.  The entries of an object keep their order. -/
inductive Data where
  | null
  | bool (value : Bool)
  | int (value : Int)
  | float (value : Binary64)
  | text (value : Text)
  | list (items : List Data)
  | object (entries : List (String × Data))
deriving Inhabited

namespace Data

def ofString (string : String) : Data :=
  .text (Text.ofString string)

def text? : Data → Option Text
  | .text value => some value
  | _ => none

def isNull : Data → Bool
  | .null => true
  | _ => false

/-- Whether a condition on the value holds: neither nothing nor false, zero or empty. -/
def isTruthy : Data → Bool
  | .null => false
  | .bool value => value
  | .int value => value ≠ 0
  | .float value => value.bits % Nat.pow 2 63 ≠ 0
  | .text value => !value.isEmpty
  | .list items => !items.isEmpty
  | .object entries => !entries.isEmpty

def get? : Data → String → Option Data
  | .object entries, key => entries.lookup key
  | _, _ => none

/-- What a value consists of: the items of a list, the characters of a text or the keys of an
object. -/
def items? : Data → Option (List Data)
  | .list items => some items
  | .text value => some (value.points.map fun point => .text ⟨[point]⟩)
  | .object entries => some (entries.map fun entry => .ofString entry.1)
  | _ => none

mutual

def render : Data → String
  | .null => "None"
  | .bool true => "True"
  | .bool false => "False"
  | .int value => toString value
  | .float value => value.render
  | .text value => value.quoted
  | .list items => "[" ++ ", ".intercalate (renderItems items) ++ "]"
  | .object entries => "\x7b" ++ ", ".intercalate (renderEntries entries) ++ "\x7d"

def renderItems : List Data → List String
  | [] => []
  | item :: rest => item.render :: renderItems rest

def renderEntries : List (String × Data) → List String
  | [] => []
  | (key, value) :: rest =>
    ((Text.ofString key).quoted ++ ": " ++ value.render) :: renderEntries rest

end

def toText : Data → Text
  | .text value => value
  | value => Text.ofString value.render

def display (value : Data) : String :=
  value.toText.toString?.getD value.render

/-- Numbers by value: an integral number as an integer, any other by its bits. -/
def number? : Data → Option (Int ⊕ Nat)
  | .bool value => some (.inl (if value then 1 else 0))
  | .int value => some (.inl value)
  | .float value =>
    let ⟨significand, power⟩ := value.magnitude
    let unit := Nat.pow 2 (-power).toNat
    if !value.isFinite || significand % unit ≠ 0 then some (.inr value.bits)
    else
      let size : Nat := significand * Nat.pow 2 power.toNat / unit
      some (.inl (if value.isNegative then -(size : Int) else size))
  | _ => none

mutual

/-- Whether two values are the same.  Numbers are compared by their value, and the truth values count
as zero and one.  The order of the entries of an object does not matter. -/
def same : Data → Data → Bool
  | .null, .null => true
  | .text left, .text right => left = right
  | .list left, .list right => sameItems left right
  | .object left, .object right => left.length == right.length && sameEntries left right
  | left, right =>
    match left.number?, right.number? with
    | some left, some right => left = right
    | _, _ => false

def sameItems : List Data → List Data → Bool
  | [], [] => true
  | left :: others, right :: rest => same left right && sameItems others rest
  | _, _ => false

def sameEntries : List (String × Data) → List (String × Data) → Bool
  | [], _ => true
  | (key, value) :: rest, others =>
    (match others.lookup key with
      | some other => same value other
      | none => false) && sameEntries rest others

end

def isNaN : Data → Bool
  | .float value => value.isNaN
  | _ => false

end Data

end Namesake
