/-!
A number is held as its bits, and all arithmetic on it is done in exact integers.
`Binary64.ofDecimal` rounds a decimal to the nearest such number; of two equally near ones it
takes the one whose last bit is zero.
-/

namespace Namesake

/-- A floating-point number: sign, exponent and fraction packed into 64 bits. -/
structure Binary64 where
  bits : Nat
deriving DecidableEq, Inhabited

namespace Binary64

def fractionCount : Nat :=
  Nat.pow 2 52

def infinity : Binary64 :=
  ⟨2047 * fractionCount⟩

def notANumber : Binary64 :=
  ⟨2047 * fractionCount + fractionCount / 2⟩

def negate (value : Binary64) : Binary64 :=
  ⟨value.bits ^^^ Nat.pow 2 63⟩

def isNegative (value : Binary64) : Bool :=
  value.bits.testBit 63

def exponent (value : Binary64) : Nat :=
  value.bits / fractionCount % 2048

def fraction (value : Binary64) : Nat :=
  value.bits % fractionCount

def isFinite (value : Binary64) : Bool :=
  value.exponent ≠ 2047

def isNaN (value : Binary64) : Bool :=
  !value.isFinite && value.fraction ≠ 0

structure Magnitude where
  significand : Nat
  power : Int

def magnitude (value : Binary64) : Magnitude :=
  if value.exponent = 0 then ⟨value.fraction, -1074⟩
  else ⟨fractionCount + value.fraction, (value.exponent : Int) - 1075⟩

/-- The nearest integer to a quotient; a half goes to the even neighbour. -/
def roundQuotient (numerator denominator : Nat) : Nat :=
  let quotient := numerator / denominator
  let twice := 2 * (numerator % denominator)
  if denominator < twice || (denominator = twice && quotient % 2 = 1) then quotient + 1
  else quotient

def scale (numerator denominator : Nat) (power : Int) : Nat × Nat :=
  if power < 0 then (numerator, denominator * Nat.pow 2 (-power).toNat)
  else (numerator * Nat.pow 2 power.toNat, denominator)

/-- The power of two that is the last place of the number nearest to a positive quotient. -/
def lastPlace (numerator denominator : Nat) : Int :=
  let estimate : Int := (numerator.log2 : Int) - (denominator.log2 : Int) - 52
  let (scaled, unit) := scale numerator denominator (-estimate)
  max (-1074) (if scaled < unit * fractionCount then estimate - 1 else estimate)

def ofQuotient (numerator denominator : Nat) : Binary64 :=
  let place := lastPlace numerator denominator
  let (scaled, unit) := scale numerator denominator (-place)
  let bits := (place + 1074).toNat * fractionCount + roundQuotient scaled unit
  if infinity.bits ≤ bits then infinity else ⟨bits⟩

/-- The number nearest to `mantissa * 10 ^ exponent`.  Decimals far outside the range are settled by
their size alone. -/
def ofDecimal (mantissa : Nat) (exponent : Int) : Binary64 :=
  let size : Int := (Nat.toDigits 10 mantissa).length + exponent
  if mantissa = 0 || size < -400 then ⟨0⟩
  else if 400 < size then infinity
  else if exponent < 0 then ofQuotient mantissa (Nat.pow 10 (-exponent).toNat)
  else ofQuotient (mantissa * Nat.pow 10 exponent.toNat) 1

end Binary64

end Namesake
