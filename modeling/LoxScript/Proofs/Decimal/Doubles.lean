import Mathlib
import LoxScript.Decimal.Binary

namespace LoxScript.Decimal

/-!
# Doubles and their parts

A finite double is given by its sign, its mantissa and its exponent.  The
mantissa has all its bits unless the exponent is the least one, which is what
makes the parts unique.
-/

/-- The parts are those of a finite double. -/
structure Binary.Canonical (number : Binary) : Prop where
  bounded : number.mantissa < 2 ^ 53
  least : -1074 ≤ number.exponent
  full : -1074 < number.exponent → 2 ^ 52 ≤ number.mantissa
  narrow : number.narrowBelow = true ↔ number.mantissa = 2 ^ 52 ∧
    -1074 < number.exponent

/-- The bits of the double with these parts. -/
def Binary.bits (number : Binary) : Nat :=
  (if number.negative then 2 ^ 63 else 0) +
    (number.exponent + 1074).toNat * 2 ^ 52 + number.mantissa

/-- The bits of a double determine it. -/
theorem eq_of_toBits_eq
    {number other : Float}
    (same : number.toBits.toNat = other.toBits.toNat) :
    number = other := by
  obtain ⟨⟨bits, _⟩⟩ := number
  obtain ⟨⟨bitsOther, _⟩⟩ := other
  have sameBits : bits = bitsOther := UInt64.toNat.inj same
  subst sameBits
  rfl

/-- The exponent field of a double that is finite is not filled with ones. -/
theorem field_ne_of_isFinite
    {number : Float}
    (isFinite : number.isFinite = true) :
    number.toBits.toNat / 2 ^ 52 % 2 ^ 11 ≠ 2 ^ 11 - 1 := by
  intro filled
  have exponent : @Float.Model.UnpackedFloat.unpackExponent .binary64
      number.toModel.toBits.toBitVec = -1#11 := by
    apply BitVec.eq_of_toNat_eq
    change (number.toBits.toNat >>> 52) % 2 ^ 11 = 2 ^ 11 - 1
    rw [Nat.shiftRight_eq_div_pow, filled]
  simp [Float.isFinite, Float.Model.isFinite, Float.Model.unpack,
    Float.Model.UnpackedFloat.unpack, exponent] at isFinite
  split at isFinite <;> cases isFinite

/-- A double that is finite has such parts, and they determine its bits. -/
theorem Shape.ofFloat_of_isFinite
    {number : Float}
    (isFinite : number.isFinite = true) :
    ∃ binary, Shape.ofFloat number = .finite binary ∧ binary.Canonical ∧
      number.toBits.toNat = binary.bits := by
  have notFilled := field_ne_of_isFinite isFinite
  have bounded : number.toBits.toNat < 2 ^ 64 := number.toBits.toNat_lt
  unfold Shape.ofFloat
  generalize number.toBits.toNat = bits at notFilled bounded
  rw [if_neg (show ¬ bits / powerOfTwo fractionBits % 2048 =
    2047 from notFilled)]
  have unit : powerOfTwo fractionBits = 2 ^ 52 := rfl
  have highest : powerOfTwo 63 = 2 ^ 63 := rfl
  split
  next zero =>
      rw [unit] at zero
      refine ⟨_, rfl, ⟨?_, ?_, ?_, ?_⟩, ?_⟩
      · simp only [unit]; omega
      · simp [leastExponent]
      · simp [leastExponent]
      · simp [leastExponent]
      · simp only [Binary.bits, decide_eq_true_eq, unit, highest, leastExponent]
        split <;> omega
  next nonzero =>
      rw [unit] at nonzero
      refine ⟨_, rfl, ⟨?_, ?_, ?_, ?_⟩, ?_⟩
      · simp only [unit]; omega
      · simp only [unit, leastExponent]; omega
      · simp only [unit]; omega
      · simp only [unit, leastExponent, Bool.and_eq_true, decide_eq_true_eq]
        omega
      · simp only [Binary.bits, decide_eq_true_eq, unit, highest, leastExponent]
        split <;> omega

end LoxScript.Decimal
