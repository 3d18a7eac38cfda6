namespace LoxScript.Decimal

/-!
# Binary numbers behind a `Float`

A finite double is a sign and `mantissa * 2 ^ exponent`.  Both directions of the
conversion are exact: `Binary.ofFloat` takes a double apart, and `nearest`
rounds a quotient of naturals to the closest double, to the even one of two that
are equally close.
-/

/-- The number of bits of a mantissa below its leading one. -/
def fractionBits : Nat :=
  52

/-- The exponent of the least positive double. -/
def leastExponent : Int :=
  -1074

/-- A power of two. -/
def powerOfTwo (exponent : Nat) : Nat :=
  Nat.pow 2 exponent

/-- A power of ten. -/
def powerOfTen (exponent : Nat) : Nat :=
  Nat.pow 10 exponent

/-- A finite double, taken apart. -/
structure Binary where
  negative : Bool
  mantissa : Nat
  exponent : Int
  /-- The next double towards zero is only half as far away as the next one
  outwards. -/
  narrowBelow : Bool
deriving Repr, DecidableEq

/-- What a double stands for. -/
inductive Shape where
  | undefined
  | infinite (negative : Bool)
  | finite (number : Binary)
deriving Repr, DecidableEq

/-- Takes a double apart. -/
def Shape.ofFloat (number : Float) : Shape :=
  let bits := number.toBits.toNat
  let negative := powerOfTwo 63 ≤ bits
  let field := bits / powerOfTwo fractionBits % 2048
  let fraction := bits % powerOfTwo fractionBits
  if field = 2047 then
    if fraction = 0 then .infinite negative else .undefined
  else if field = 0 then
    .finite ⟨negative, fraction, leastExponent, false⟩
  else
    .finite ⟨negative, powerOfTwo fractionBits + fraction,
      leastExponent + field - 1, fraction = 0 && 1 < field⟩

/-- The quotient rounded to the nearest natural, to the even one of two. -/
def roundQuotient (numerator denominator : Nat) : Nat :=
  let quotient := numerator / denominator
  let twice := 2 * (numerator % denominator)
  if twice < denominator then quotient
  else if denominator < twice then quotient + 1
  else quotient + quotient % 2

/-- `numerator / denominator` in units of `2 ^ exponent`, as a quotient of
naturals. -/
def inUnits (numerator denominator : Nat) (exponent : Int) : Nat × Nat :=
  if 0 ≤ exponent then (numerator, denominator * powerOfTwo exponent.toNat)
  else (numerator * powerOfTwo (-exponent).toNat, denominator)

/-- The exponent at which the mantissa of a positive quotient has all its
bits. -/
def unitExponent (numerator denominator : Nat) : Int :=
  let guess : Int :=
    (numerator.log2 : Int) - (denominator.log2 : Int) - fractionBits
  let scaled := inUnits numerator denominator guess
  if scaled.1 / scaled.2 < powerOfTwo fractionBits then guess - 1 else guess

/-- The bits of the double nearest to a positive quotient. -/
def nearestBits (numerator denominator : Nat) : Nat :=
  let exponent := max leastExponent (unitExponent numerator denominator)
  let scaled := inUnits numerator denominator exponent
  let mantissa := roundQuotient scaled.1 scaled.2
  let field := (exponent - leastExponent).toNat
  let bits := field * powerOfTwo fractionBits + mantissa
  min bits (2047 * powerOfTwo fractionBits)

/-- The double nearest to a quotient of naturals with a positive denominator. -/
def nearest (numerator denominator : Nat) : Float :=
  if numerator = 0 then 0.0
  else Float.ofBits (nearestBits numerator denominator).toUInt64

end LoxScript.Decimal
