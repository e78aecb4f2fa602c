import Namesake.Binary64

/-!
Finite numbers are added as exact fractions, and the sum is rounded once.
-/

namespace Namesake.Binary64

def toFraction (value : Binary64) : Int × Nat :=
  let ⟨significand, power⟩ := value.magnitude
  let (numerator, denominator) := scale significand 1 power
  (if value.isNegative then -(numerator : Int) else numerator, denominator)

def ofFraction (numerator : Int) (denominator : Nat) : Binary64 :=
  if numerator = 0 then ⟨0⟩
  else
    let size := ofQuotient numerator.natAbs denominator
    if numerator < 0 then size.negate else size

def ofInt (value : Int) : Binary64 :=
  ofFraction value 1

/-- The sum of two finite numbers.  Only two negative zeros have a negative zero as their sum. -/
def addFinite (left right : Binary64) : Binary64 :=
  let (numerator, denominator) := left.toFraction
  let (numerator', denominator') := right.toFraction
  if numerator = 0 && numerator' = 0 then
    if left.isNegative && right.isNegative then left else ⟨0⟩
  else ofFraction (numerator * denominator' + numerator' * denominator) (denominator * denominator')

def add (left right : Binary64) : Binary64 :=
  if left.isNaN || right.isNaN then notANumber
  else
    match left.isFinite, right.isFinite with
    | true, true => addFinite left right
    | true, false => right
    | false, true => left
    | false, false => if left = right then left else notANumber

end Namesake.Binary64
