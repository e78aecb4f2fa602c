import Namesake.Binary64.Sum
import Namesake.Data

/-!
A truth value counts as zero or one.  Sums of whole numbers are exact, and any other sum is a
floating-point number.  Numbers are compared by their exact values.
-/

namespace Namesake.Data

def whole? : Data → Option Int
  | .bool value => some (if value then 1 else 0)
  | .int value => some value
  | _ => none

def nearest? : Data → Option Binary64
  | .float value => some value
  | value => value.whole?.map .ofInt

def plus? (left right : Data) : Option Data :=
  match left.whole?, right.whole? with
  | some left, some right => some (.int (left + right))
  | _, _ => do return .float ((← left.nearest?).add (← right.nearest?))

def minus? (left right : Data) : Option Data :=
  match left.whole?, right.whole? with
  | some left, some right => some (.int (left - right))
  | _, _ => do return .float ((← left.nearest?).add (← right.nearest?).negate)

def fraction? : Data → Option (Int × Nat)
  | .float value => if value.isFinite then some value.toFraction else none
  | value => value.whole?.map fun whole => (whole, 1)

/-- Whether a value is the number above all others, or the one below them. -/
def isInfinity (below : Bool) : Data → Bool
  | .float value => value = if below then Binary64.infinity.negate else Binary64.infinity
  | _ => false

def isOrdered (value : Data) : Bool :=
  value.fraction?.isSome || value.isInfinity false || value.isInfinity true

def pointsAtMost : List Nat → List Nat → Bool
  | [], _ => true
  | _ :: _, [] => false
  | left :: others, right :: rest => left < right || (left = right && pointsAtMost others rest)

/-- Whether a value is at most another one.  Numbers and texts are compared; between other values,
and between a number and a text, there is no order. -/
def atMost : Data → Data → Bool
  | .text left, .text right => pointsAtMost left.points right.points
  | left, right =>
    match left.fraction?, right.fraction? with
    | some (numerator, denominator), some (numerator', denominator') =>
      numerator * denominator' ≤ numerator' * denominator
    | _, _ =>
      (left.isInfinity true && right.isOrdered) || (right.isInfinity false && left.isOrdered)

end Namesake.Data
