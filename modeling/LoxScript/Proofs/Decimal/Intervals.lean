import Mathlib
import LoxScript.Decimal.Shortest
import LoxScript.Proofs.Decimal.Doubles

namespace LoxScript.Decimal

/-!
# The intervals of doubles are disjoint

The shortest decimal of a double lies in the interval of reals that round to the
double, and no rational number lies in the intervals of two doubles.  Where the
intervals of two neighbours touch, the common end belongs to the one whose
mantissa is even.
-/

/-- The rational number lies in the interval. -/
def Interval.Covers (interval : Interval) (number : ℚ) : Prop :=
  if interval.closed then
    interval.low ≤ number * interval.scale ∧
      number * interval.scale ≤ interval.high
  else interval.low < number * interval.scale ∧
    number * interval.scale < interval.high

/-- A quarter of the distance between doubles with the exponent of the
number. -/
def Binary.quarter (number : Binary) : ℚ :=
  2 ^ (number.exponent - 2)

/-- How many quarters the interval goes down from the number. -/
def Binary.below (number : Binary) : Nat :=
  if number.narrowBelow then 1 else 2

section Powers

/-- A power with an integral exponent is a quotient of two powers with natural
ones. -/
theorem zpow_mul_pow_toNat
    (base : ℚ)
    (nonzero : base ≠ 0)
    (exponent : ℤ) :
    base ^ exponent * base ^ (-exponent).toNat = base ^ exponent.toNat := by
  rw [← zpow_natCast base exponent.toNat, ← zpow_natCast base (-exponent).toNat,
    ← zpow_add₀ nonzero]
  congr 1
  omega

variable (interval : Interval)

/-- An interval holds the natural numbers that lie in it. -/
theorem Interval.holds_iff
    (point : Nat) :
    interval.holds point = true ↔ interval.Covers point := by
  unfold holds Covers
  split
  · rw [Bool.and_eq_true, decide_eq_true_eq, decide_eq_true_eq]
    exact_mod_cast Iff.rfl
  · rw [Bool.and_eq_true, decide_eq_true_eq, decide_eq_true_eq]
    exact_mod_cast Iff.rfl

/-- In units of a power of ten, an interval holds what it held times that
power. -/
theorem Interval.covers_inPowers
    (power : ℤ)
    (number : ℚ) :
    (interval.inPowers power).Covers number ↔
      interval.Covers (number * 10 ^ power) := by
  have factorPositive : (0 : ℚ) < 10 ^ (-power).toNat := by
    positivity
  have scaled : number * (interval.scale * 10 ^ power.toNat) =
      number * 10 ^ power * interval.scale * 10 ^ (-power).toNat := by
    rw [← zpow_mul_pow_toNat 10 (by norm_num) power]
    ring
  simp only [Covers, inPowers, powerOfTen, Nat.pow_eq, Nat.cast_mul,
    Nat.cast_pow, Nat.cast_ofNat,
    scaled, mul_le_mul_iff_left₀ factorPositive,
      mul_lt_mul_iff_left₀ factorPositive]

end Powers

section Binary

variable {number other : Binary} {point : ℚ}

theorem Binary.quarter_pos
    (number : Binary) :
    0 < number.quarter := by
  unfold quarter
  positivity

/-- The scale of an interval, in quarters, is its unit. -/
theorem Binary.quarter_mul_scale
    (number : Binary) :
    number.quarter * ((Interval.ofBinary number).scale : ℚ) =
      2 ^ (number.exponent - 2).toNat := by
  have unit := zpow_mul_pow_toNat 2 (by norm_num) (number.exponent - 2)
  simpa [quarter, Interval.ofBinary, powerOfTwo] using unit

/-- The value of an interval, over its scale, is the number. -/
theorem Interval.value_ofBinary
    (number : Binary) :
    ((ofBinary number).value : ℚ) =
      4 * number.mantissa * number.quarter * (ofBinary number).scale := by
  rw [mul_assoc _ number.quarter, number.quarter_mul_scale]
  simp [ofBinary, powerOfTwo]

/-- An interval goes two quarters up from the number. -/
theorem Interval.high_ofBinary
    (number : Binary) :
    ((ofBinary number).high : ℚ) =
      (4 * number.mantissa + 2) * number.quarter * (ofBinary number).scale := by
  rw [mul_assoc _ number.quarter, number.quarter_mul_scale]
  simp [ofBinary, powerOfTwo]
  ring

/-- An interval goes one or two quarters down from the number. -/
theorem Interval.low_ofBinary
    (positive : 0 < number.mantissa) :
    ((ofBinary number).low : ℚ) =
      (4 * number.mantissa - number.below) * number.quarter *
        (ofBinary number).scale := by
  have small : number.below ≤ 4 * number.mantissa := by
    unfold Binary.below
    split <;> omega
  have low : (ofBinary number).low =
      (4 * number.mantissa - number.below) * 2 ^
        (number.exponent - 2).toNat := by
    simp [ofBinary, powerOfTwo, Binary.below, Nat.sub_mul]
  rw [mul_assoc _ number.quarter, number.quarter_mul_scale, low]
  push_cast [Nat.cast_sub small]
  ring

/-- What lies in the interval of a number is no further from it than the
interval goes, and nearer if its mantissa is odd. -/
theorem Interval.Covers.bounds
    (positive : 0 < number.mantissa)
    (covers : (Interval.ofBinary number).Covers point) :
    ((4 * number.mantissa - number.below) * number.quarter ≤ point ∧
      point ≤ (4 * number.mantissa + 2) * number.quarter) ∧
    (number.mantissa % 2 = 1 →
      (4 * number.mantissa - number.below) * number.quarter < point ∧
        point < (4 * number.mantissa + 2) * number.quarter) := by
  have scalePositive : (0 : ℚ) < (Interval.ofBinary number).scale := by
    simp [ofBinary, powerOfTwo]
  have isClosed : (Interval.ofBinary number).closed =
      decide (number.mantissa % 2 = 0) := rfl
  unfold Covers at covers
  rw [low_ofBinary positive, high_ofBinary, mul_le_mul_iff_left₀ scalePositive,
    mul_le_mul_iff_left₀ scalePositive, mul_lt_mul_iff_left₀ scalePositive,
    mul_lt_mul_iff_left₀ scalePositive, isClosed] at covers
  split at covers
  next even =>
      rw [decide_eq_true_eq] at even
      exact ⟨covers, fun odd => by omega⟩
  next odd => exact ⟨⟨covers.1.le, covers.2.le⟩, fun _ => covers⟩

/-- Next to a number with the same exponent and a greater mantissa there is no
common point. -/
theorem Interval.Covers.disjoint_of_exponent_eq
    (positive : 0 < number.mantissa)
    (sameExponent : number.exponent = other.exponent)
    (less : number.mantissa < other.mantissa)
    (covers : (Interval.ofBinary number).Covers point)
    (coversOther : (Interval.ofBinary other).Covers point) :
    False := by
  obtain ⟨⟨-, upper⟩, odd⟩ := covers.bounds positive
  obtain ⟨⟨lower, -⟩, oddOther⟩ := coversOther.bounds (positive.trans less)
  have sameQuarter : other.quarter = number.quarter := by
    rw [Binary.quarter, Binary.quarter, sameExponent]
  have quarterPositive := number.quarter_pos
  have below : (other.below : ℚ) ≤ 2 := by
    unfold Binary.below
    split <;> norm_num
  rw [sameQuarter] at lower oddOther
  -- The upper end of the smaller number is at most the lower end of the greater
  -- one.
  have ends : (4 * (number.mantissa : ℚ) + 2) * number.quarter ≤
      (4 * other.mantissa - other.below) * number.quarter := by
    have next : (number.mantissa : ℚ) + 1 ≤ other.mantissa := by
      exact_mod_cast less
    exact mul_le_mul_of_nonneg_right (by linarith) quarterPositive.le
  by_cases isOdd : number.mantissa % 2 = 1
  · linarith [(odd isOdd).2]
  by_cases isOddOther : other.mantissa % 2 = 1
  · linarith [(oddOther isOddOther).1]
  -- Between two even mantissas there is an odd one.
  have apart : (number.mantissa : ℚ) + 2 ≤ other.mantissa := by
    have : number.mantissa + 2 ≤ other.mantissa := by omega
    exact_mod_cast this
  have gap : (4 * (number.mantissa : ℚ) + 2) * number.quarter <
      (4 * other.mantissa - other.below) * number.quarter :=
    mul_lt_mul_of_pos_right (by linarith) quarterPositive
  linarith

/-- Next to a number with a greater exponent there is no common point. -/
theorem Interval.Covers.disjoint_of_exponent_lt
    (canonical : number.Canonical)
    (canonicalOther : other.Canonical)
    (positive : 0 < number.mantissa)
    (less : number.exponent < other.exponent)
    (covers : (Interval.ofBinary number).Covers point)
    (coversOther : (Interval.ofBinary other).Covers point) :
    False := by
  have aboveLeast : -1074 < other.exponent := canonical.least.trans_lt less
  have full := canonicalOther.full aboveLeast
  obtain ⟨⟨-, upper⟩, odd⟩ := covers.bounds positive
  obtain ⟨⟨lower, -⟩, -⟩ := coversOther.bounds (by omega)
  have quarterPositive := number.quarter_pos
  have doubled : 2 * number.quarter ≤ other.quarter := by
    have power : (2 : ℚ) * 2 ^ (number.exponent - 2) =
        2 ^ (number.exponent - 2 + 1) := by
      rw [zpow_add_one₀ (by norm_num)]
      ring
    rw [Binary.quarter, Binary.quarter, power]
    exact zpow_le_zpow_right₀ (by norm_num) (by omega)
  -- A number whose mantissa is least goes down by one quarter only.
  have lowest : (2 ^ 54 - 1 : ℚ) ≤ 4 * other.mantissa - other.below := by
    unfold Binary.below
    split
    next isNarrow =>
        rw [(canonicalOther.narrow.mp isNarrow).1]
        norm_num
    next notNarrow =>
        have notLeast : other.mantissa ≠ 2 ^ 52 := fun isLeast =>
          notNarrow (canonicalOther.narrow.mpr ⟨isLeast, aboveLeast⟩)
        have more : (2 ^ 52 + 1 : ℚ) ≤ other.mantissa := by
          have : 2 ^ 52 + 1 ≤ other.mantissa := by omega
          exact_mod_cast this
        push_cast
        linarith
  have start : (2 ^ 55 - 2) * number.quarter ≤ point := by
    have scaled := mul_le_mul lowest doubled (by positivity) (by linarith)
    linarith
  have bounded := canonical.bounded
  by_cases isOdd : number.mantissa % 2 = 1
  · have most : (number.mantissa : ℚ) ≤ 2 ^ 53 - 1 := by
      have : number.mantissa + 1 ≤ 2 ^ 53 := bounded
      have : (number.mantissa : ℚ) + 1 ≤ 2 ^ 53 := by exact_mod_cast this
      linarith
    have last : (4 * (number.mantissa : ℚ) + 2) * number.quarter ≤
        (2 ^ 55 - 2) * number.quarter :=
      mul_le_mul_of_nonneg_right (by linarith) quarterPositive.le
    linarith [(odd isOdd).2]
  · have most : (number.mantissa : ℚ) ≤ 2 ^ 53 - 2 := by
      have : number.mantissa + 2 ≤ 2 ^ 53 := by omega
      have : (number.mantissa : ℚ) + 2 ≤ 2 ^ 53 := by exact_mod_cast this
      linarith
    have last : (4 * (number.mantissa : ℚ) + 2) * number.quarter <
        (2 ^ 55 - 2) * number.quarter :=
      mul_lt_mul_of_pos_right (by linarith) quarterPositive
    linarith

/-- A rational number lies in the interval of one number only. -/
theorem Interval.Covers.unique
    (canonical : number.Canonical)
    (canonicalOther : other.Canonical)
    (positive : 0 < number.mantissa)
    (positiveOther : 0 < other.mantissa)
    (covers : (Interval.ofBinary number).Covers point)
    (coversOther : (Interval.ofBinary other).Covers point) :
    number.exponent = other.exponent ∧ number.mantissa = other.mantissa := by
  rcases lt_trichotomy number.exponent other.exponent with
    less | sameExponent | greater
  · exact (covers.disjoint_of_exponent_lt canonical canonicalOther positive less
      coversOther).elim
  · rcases lt_trichotomy number.mantissa other.mantissa with
      less | sameMantissa | greater
    · exact (covers.disjoint_of_exponent_eq positive sameExponent less
        coversOther).elim
    · exact ⟨sameExponent, sameMantissa⟩
    · exact (coversOther.disjoint_of_exponent_eq positiveOther
        sameExponent.symm greater covers).elim
  · exact (coversOther.disjoint_of_exponent_lt canonicalOther canonical
      positiveOther greater covers).elim

end Binary

end LoxScript.Decimal
