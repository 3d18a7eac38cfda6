import LoxScript.Decimal.Binary

namespace LoxScript.Decimal

/-!
# The shortest decimal that reads back

Every double is the nearest one to a whole interval of reals.  Among the decimal
numbers in that interval, `shortest` finds one with the fewest digits, and of
those the closest to the double.  It looks at one decimal grid after another,
from coarse to fine, and on each grid only at the two neighbours of the double:
if any point of a grid lies in the interval, one of them does.
-/

/-- The decimal number `coefficient * 10 ^ exponent`. -/
structure Digits where
  coefficient : Nat
  exponent : Int
deriving Repr, DecidableEq

/-- A positive number with the interval of reals that round to it, over one
scale. -/
structure Interval where
  low : Nat
  value : Nat
  high : Nat
  scale : Nat
  /-- The ends belong to the interval. -/
  closed : Bool
deriving Repr, DecidableEq

/-- The interval of a positive binary number. -/
def Interval.ofBinary (number : Binary) : Interval :=
  let exponent := number.exponent - 2
  let unit := powerOfTwo exponent.toNat
  let value := 4 * number.mantissa * unit
  { low := value - (if number.narrowBelow then 1 else 2) * unit
    value := value
    high := value + 2 * unit
    scale := powerOfTwo (-exponent).toNat
    closed := number.mantissa % 2 = 0 }

/-- The same interval measured in units of `10 ^ power`. -/
def Interval.inPowers (interval : Interval) (power : Int) : Interval :=
  let factor := powerOfTen (-power).toNat
  { interval with
    low := interval.low * factor
    value := interval.value * factor
    high := interval.high * factor
    scale := interval.scale * powerOfTen power.toNat }

/-- Whether the interval holds the natural number `point`. -/
def Interval.holds (interval : Interval) (point : Nat) : Bool :=
  let scaled := point * interval.scale
  if interval.closed then interval.low ≤ scaled && scaled ≤ interval.high
  else interval.low < scaled && scaled < interval.high

/-- The natural number in the interval that is closest to its value, the greater
of two. -/
def Interval.closest? (interval : Interval) : Option Nat :=
  let below := interval.value / interval.scale
  let above := below + 1
  let distance := interval.value % interval.scale
  if interval.holds below then
    if interval.holds above && interval.scale ≤ 2 * distance then some above
    else some below
  else if interval.holds above then some above
  else none

/-- The first grid from `10 ^ power` downwards on which a decimal reads back. -/
def search (interval : Interval) : Nat → Int → Digits
  | 0, power =>
      let scaled := interval.inPowers power
      ⟨scaled.value / scaled.scale, power⟩
  | steps + 1, power =>
      match (interval.inPowers power).closest? with
      | some coefficient => ⟨coefficient, power⟩
      | none => search interval steps (power - 1)

/-- How many decimal digits a natural number has. -/
def digitCount (number : Nat) : Nat :=
  (Nat.toDigits 10 number).length

/-- A power of ten above the interval. -/
def Interval.topPower (interval : Interval) : Int :=
  if interval.scale ≤ interval.value then
    digitCount (interval.value / interval.scale)
  else 2 - (digitCount (interval.scale / interval.value) : Int)

/-- More grids than any double needs. -/
def gridLimit : Nat :=
  24

/-- The shortest decimal that reads back as the positive binary number. -/
def shortest (number : Binary) : Digits :=
  let interval := Interval.ofBinary number
  search interval gridLimit interval.topPower

end LoxScript.Decimal
