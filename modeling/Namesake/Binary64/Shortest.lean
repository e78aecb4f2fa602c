import Namesake.Binary64

/-!
Of the decimals that round to the number, the one with the fewest digits is taken, and of
several of those the nearest.  `Binary64.render` writes it positionally between `1e-4` and
`1e16` and with an exponent elsewhere.
-/

namespace Namesake.Binary64

/-- The magnitude as a quotient, over a denominator that also measures the distance to the
neighbours in quarters: the quotient, and how far below and above a decimal may lie. -/
structure Interval where
  value : Nat
  unit : Nat
  below : Nat
  above : Nat
  closed : Bool

def interval (value : Binary64) : Interval :=
  let ⟨significand, power⟩ := value.magnitude
  let narrow := significand = fractionCount && -1074 < power
  let (scaled, unit) := scale (4 * significand) 4 power
  let (quarter, _) := scale 1 4 power
  { value := scaled, unit, below := if narrow then quarter else 2 * quarter, above := 2 * quarter,
    closed := significand % 2 = 0 }

/-- Whether `count * 10 ^ place` rounds to the number, and how far it is from it. -/
def distance? (interval : Interval) (place : Int) (count : Nat) : Option Nat :=
  let (numerator, unit, grain) :=
    if place < 0 then (count * interval.unit, 1, Nat.pow 10 (-place).toNat)
    else (count * Nat.pow 10 place.toNat * interval.unit, 1, 1)
  let exact := interval.value * grain * unit
  let gap := if exact ≤ numerator then numerator - exact else exact - numerator
  let room := (if exact ≤ numerator then interval.above else interval.below) * grain
  if gap < room || (interval.closed && gap = room) then some gap else none

/-- The place of the first digit of a quotient: the greatest power of ten that is not above it. -/
def leadingPlace (interval : Interval) : Int :=
  let estimate : Int :=
    ((interval.value.log2 : Int) - (interval.unit.log2 : Int)) * 30103 / 100000
  let reaches (place : Int) : Bool :=
    if place < 0 then interval.unit ≤ interval.value * Nat.pow 10 (-place).toNat
    else interval.unit * Nat.pow 10 place.toNat ≤ interval.value
  ([estimate + 2, estimate + 1, estimate, estimate - 1].find? reaches).getD (estimate - 2)

structure Decimal where
  digits : Nat
  place : Int

def withDigits? (interval : Interval) (leading : Int) (count : Nat) : Option Decimal :=
  let place := leading - count + 1
  let floor :=
    if place < 0 then interval.value * Nat.pow 10 (-place).toNat / interval.unit
    else interval.value / (interval.unit * Nat.pow 10 place.toNat)
  match distance? interval place floor, distance? interval place (floor + 1) with
  | some low, some high =>
    if high < low || (high = low && floor % 2 = 1) then some ⟨floor + 1, place⟩
    else some ⟨floor, place⟩
  | some _, none => some ⟨floor, place⟩
  | none, some _ => some ⟨floor + 1, place⟩
  | none, none => none

def shortest (value : Binary64) : Decimal :=
  let interval := value.interval
  let leading := leadingPlace interval
  ((List.range 17).findSome? fun index => withDigits? interval leading (index + 1)).getD ⟨0, 0⟩

def trimZeros (digits : List Char) : List Char :=
  (digits.reverse.dropWhile (· = '0')).reverse

def renderDecimal (decimal : Decimal) : String :=
  let all := Nat.toDigits 10 decimal.digits
  let leading : Int := decimal.place + all.length - 1
  let digits := trimZeros all
  if -4 ≤ leading && leading < 16 then
    if leading < 0 then
      "0." ++ String.ofList (List.replicate (-leading - 1).toNat '0' ++ digits)
    else
      let whole := leading.toNat + 1
      let padded := digits ++ List.replicate (whole - digits.length) '0'
      let fraction := padded.drop whole
      String.ofList (padded.take whole) ++ "." ++
        (if fraction.isEmpty then "0" else String.ofList fraction)
  else
    let exponent := Nat.toDigits 10 leading.natAbs
    let sign := if leading < 0 then "-" else "+"
    let padded := if exponent.length < 2 then '0' :: exponent else exponent
    String.ofList (digits.take 1) ++
      (if digits.length ≤ 1 then "" else "." ++ String.ofList (digits.drop 1)) ++
      "e" ++ sign ++ String.ofList padded

def render (value : Binary64) : String :=
  let sign := if value.isNegative then "-" else ""
  if value.isNaN then "nan"
  else if !value.isFinite then sign ++ "inf"
  else if value.magnitude.significand = 0 then sign ++ "0.0"
  else sign ++ renderDecimal value.shortest

end Namesake.Binary64
