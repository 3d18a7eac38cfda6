import Mathlib
import LoxScript.Proofs.Decimal.Intervals

namespace LoxScript.Decimal

/-!
# The search ends inside of the interval

From a power of ten above a double down to the finest grid that is looked at
there are more grids than any double needs: on the finest one, two neighbours
are closer to each other than the double is to the upper end of its interval.
-/

section Grid

variable {interval : Interval} {point : Nat}

/-- The point that is found on a grid lies in the interval. -/
theorem Interval.covers_of_closest?
    (found : interval.closest? = some point) :
    interval.Covers point := by
  rw [← interval.holds_iff]
  unfold closest? at found
  dsimp only at found
  split_ifs at found with holdsBelow holdsBoth holdsAbove
  · cases found
    exact (Bool.and_eq_true_iff.mp holdsBoth).1
  · cases found
    exact holdsBelow
  · cases found
    exact holdsAbove

/-- A point is found on a grid that is finer than the upper part of the
interval. -/
theorem Interval.closest?_isSome
    (positive : 0 < interval.scale)
    (lower : interval.low ≤ interval.value)
    (fine : interval.value + interval.scale < interval.high) :
    interval.closest?.isSome = true := by
  have holdsAbove : interval.holds (interval.value / interval.scale + 1) =
      true := by
    have split := Nat.div_add_mod interval.value interval.scale
    have remainder := Nat.mod_lt interval.value positive
    have scaled : (interval.value / interval.scale + 1) * interval.scale =
        interval.scale * (interval.value / interval.scale) +
          interval.scale := by
      ring
    unfold holds
    simp only [scaled]
    split <;> simp only [Bool.and_eq_true, decide_eq_true_eq] <;> omega
  unfold closest?
  dsimp only
  split
  · split <;> rfl
  · rfl

/-- What the search finds lies in the interval if one of the grids that it looks
at has a point. -/
theorem Interval.covers_search
    (interval : Interval)
    (steps : Nat)
    (power : ℤ)
    (hits : ∃ step < steps,
      (interval.inPowers (power - step)).closest?.isSome = true) :
    interval.Covers
      ((search interval steps power).coefficient *
        10 ^ (search interval steps power).exponent) := by
  induction steps generalizing power with
  | zero =>
      obtain ⟨step, less, -⟩ := hits
      exact absurd less (Nat.not_lt_zero step)
  | succ steps inductionHypothesis =>
      unfold search
      split
      next coefficient found =>
          exact (interval.covers_inPowers power coefficient).mp
            (covers_of_closest? found)
      next notFound =>
          obtain ⟨step, less, isSome⟩ := hits
          cases step with
          | zero =>
              rw [Nat.cast_zero, sub_zero, notFound] at isSome
              cases isSome
          | succ step =>
              refine inductionHypothesis (power - 1)
                ⟨step, Nat.lt_of_succ_lt_succ less, ?_⟩
              rwa [sub_sub, add_comm 1, ← Nat.cast_succ]

end Grid

section Digits

/-- A natural number is less than the power of ten with its digits. -/
theorem lt_pow_digitCount
    (number : Nat) :
    number < 10 ^ digitCount number :=
  (Nat.length_toDigits_le_iff (by decide) Nat.length_toDigits_pos).mp le_rfl

/-- A positive number is at least the power of ten with all its digits but
one. -/
theorem pow_digitCount_le
    {number : Nat}
    (positive : 0 < number) :
    10 ^ (digitCount number - 1) ≤ number := by
  by_contra less
  rcases Nat.eq_zero_or_pos (digitCount number - 1) with one | more
  · rw [one] at less
    omega
  · have fewer :=
      (Nat.length_toDigits_le_iff (by decide) more).mpr (not_le.mp less)
    have notZero : 0 < digitCount number := Nat.length_toDigits_pos
    unfold digitCount at fewer notZero more
    omega

end Digits

section Reach

/-- Two grids below the top there is a grid that is no coarser than the
number. -/
theorem Interval.topPower_le
    {interval : Interval}
    (positive : 0 < interval.value)
    (scalePositive : 0 < interval.scale) :
    (10 : ℚ) ^ (interval.topPower - 2) ≤ interval.value / interval.scale := by
  have valuePositive : (0 : ℚ) < interval.value := by exact_mod_cast positive
  have scaleCast : (0 : ℚ) < interval.scale := by exact_mod_cast scalePositive
  unfold topPower
  split
  next large =>
      have wholePositive : 0 < interval.value / interval.scale :=
        Nat.div_pos large scalePositive
      have notZero : 0 < digitCount (interval.value / interval.scale) :=
        Nat.length_toDigits_pos
      have whole :
          (10 : ℚ) ^ (digitCount (interval.value / interval.scale) - 1) ≤
          (interval.value / interval.scale : Nat) := by
        exact_mod_cast pow_digitCount_le wholePositive
      calc (10 : ℚ) ^ ((digitCount (interval.value / interval.scale) : ℤ) - 2)
          ≤ 10 ^ ((digitCount (interval.value / interval.scale) - 1 : Nat) :
              ℤ) :=
            zpow_le_zpow_right₀ (by norm_num) (by omega)
        _ ≤ (interval.value / interval.scale : Nat) := by
            rw [zpow_natCast]
            exact whole
        _ ≤ interval.value / interval.scale := Nat.cast_div_le
  next small =>
      generalize digits : digitCount (interval.scale / interval.value) = count
      have whole : interval.scale < interval.value * 10 ^ count := by
        have less := lt_pow_digitCount (interval.scale / interval.value)
        rw [digits] at less
        rw [mul_comm]
        exact (Nat.div_lt_iff_lt_mul positive).mp less
      have wholeCast : (interval.scale : ℚ) < interval.value * 10 ^ count := by
        exact_mod_cast whole
      have power : (10 : ℚ) ^ ((2 : ℤ) - count - 2) = (10 ^ count)⁻¹ := by
        rw [← zpow_natCast, ← zpow_neg]
        congr 1
        omega
      rw [power, le_div_iff₀ scaleCast, inv_mul_le_iff₀ (by positivity)]
      linarith

variable {number : Binary}

/-- A grid that is finer than half of the distance between doubles has a point
in the interval. -/
theorem Interval.closest?_isSome_of_power
    {power : ℤ}
    (fine : (10 : ℚ) ^ power < 2 * number.quarter) :
    ((ofBinary number).inPowers power).closest?.isSome = true := by
  have scalePositive : 0 < (ofBinary number).scale := by
    simp [ofBinary, powerOfTwo]
  have scaleCast :
      (0 : ℚ) < (ofBinary number).scale := by exact_mod_cast scalePositive
  have factorPositive : (0 : ℚ) < 10 ^ (-power).toNat := by positivity
  have powers := zpow_mul_pow_toNat 10 (by norm_num) power
  refine closest?_isSome ?_ ?_ ?_
  · exact Nat.mul_pos scalePositive (Nat.pow_pos (by decide))
  · exact Nat.mul_le_mul_right _ (Nat.sub_le _ _)
  · have cast : ((ofBinary number).value * 10 ^ (-power).toNat +
        (ofBinary number).scale * 10 ^ power.toNat : ℚ) <
          (ofBinary number).high * 10 ^ (-power).toNat := by
      have finer :
          (10 : ℚ) ^ power * ((ofBinary number).scale * 10 ^ (-power).toNat) <
          2 * number.quarter *
            ((ofBinary number).scale * 10 ^ (-power).toNat) :=
        mul_lt_mul_of_pos_right fine (mul_pos scaleCast factorPositive)
      rw [← powers, value_ofBinary, high_ofBinary]
      linarith
    exact_mod_cast cast

/-- The shortest decimal of a number lies in its interval. -/
theorem covers_shortest
    (canonical : number.Canonical)
    (positive : 0 < number.mantissa) :
    (Interval.ofBinary number).Covers
      ((shortest number).coefficient * 10 ^ (shortest number).exponent) := by
  have scalePositive : 0 < (Interval.ofBinary number).scale := by
    simp [Interval.ofBinary, powerOfTwo]
  have valuePositive : 0 < (Interval.ofBinary number).value := by
    simp [Interval.ofBinary, powerOfTwo, positive]
  refine Interval.covers_search _ _ _
    ⟨23, by decide, Interval.closest?_isSome_of_power ?_⟩
  have scaleCast : (0 : ℚ) < (Interval.ofBinary number).scale := by
    exact_mod_cast scalePositive
  have top := Interval.topPower_le valuePositive scalePositive
  rw [Interval.value_ofBinary, mul_div_cancel_right₀ _ scaleCast.ne'] at top
  have bounded :
      (number.mantissa : ℚ) < 2 ^ 53 := by exact_mod_cast canonical.bounded
  have quarterPositive := number.quarter_pos
  -- The mantissa has fewer than seventeen digits, and twenty-one more grids are
  -- looked at.
  calc (10 : ℚ) ^ ((Interval.ofBinary number).topPower - (23 : Nat))
      = 10 ^ ((Interval.ofBinary number).topPower - 2) / 10 ^ 21 := by
        rw [← zpow_natCast, ← zpow_sub₀ (by norm_num)]
        congr 1
        push_cast
        ring
    _ ≤ 4 * number.mantissa * number.quarter / 10 ^ 21 := by gcongr
    _ ≤ 4 * 2 ^ 53 * number.quarter / 10 ^ 21 := by gcongr
    _ < 2 * number.quarter := by linarith

end Reach

end LoxScript.Decimal
