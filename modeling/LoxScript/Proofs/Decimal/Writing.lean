import Mathlib
import LoxScript.Decimal.Written
import LoxScript.Proofs.Decimal.Search

namespace LoxScript.Decimal

/-!
# Different numbers have different texts

The text of a finite number spells a rational number in the interval of the
number, and the intervals of different numbers are disjoint.  So the text says
which number it is of.
-/

/-- The rational number that digits with a point among them spell. -/
def spelledValue (text : List Char) : ℚ :=
  Nat.ofDigitChars 10 (text.filter (· != '.')) 0 / 10 ^
    (text.dropWhile (· != '.')).tail.length

section Spelling

variable {front back : List Char}

/-- The characters are digits. -/
def AreDigits (text : List Char) : Prop :=
  ∀ c ∈ text, c.isDigit = true

theorem AreDigits.append
    (areFront : AreDigits front)
    (areBack : AreDigits back) :
    AreDigits (front ++ back) :=
  List.forall_mem_append.mpr ⟨areFront, areBack⟩

theorem areDigits_toDigits
    (number : Nat) :
    AreDigits (Nat.toDigits 10 number) :=
  fun _ member => Nat.isDigit_of_mem_toDigits (by decide) (by decide) member

theorem areDigits_zeros
    (count : Nat) :
    AreDigits (List.replicate count '0') := by
  intro c member
  rw [List.eq_of_mem_replicate member]
  decide

/-- No digit is a point. -/
theorem AreDigits.ne_point
    (areDigits : AreDigits front) :
    ∀ c ∈ front, (c != '.') = true := by
  intro c member
  have isDigit := areDigits c member
  rw [bne_iff_ne]
  rintro rfl
  cases isDigit

/-- Digits alone spell a natural number. -/
theorem spelledValue_of_digits
    (areDigits : AreDigits front) :
    spelledValue front = Nat.ofDigitChars 10 front 0 := by
  unfold spelledValue
  rw [List.filter_eq_self.mpr areDigits.ne_point,
    List.dropWhile_eq_nil_iff.mpr areDigits.ne_point]
  simp

/-- Digits with a point among them spell the natural number of all digits over a
power of ten. -/
theorem spelledValue_of_point
    (areFront : AreDigits front)
    (areBack : AreDigits back) :
    spelledValue (front ++ '.' :: back) =
      Nat.ofDigitChars 10 (front ++ back) 0 / 10 ^ back.length := by
  have after : (front ++ '.' :: back).dropWhile (· != '.') = '.' :: back := by
    rw [List.dropWhile_append_of_pos areFront.ne_point]
    rfl
  have digits : (front ++ '.' :: back).filter (· != '.') = front ++ back := by
    rw [List.filter_append, List.filter_cons_of_neg (by decide),
      List.filter_eq_self.mpr areFront.ne_point,
        List.filter_eq_self.mpr areBack.ne_point]
  rw [spelledValue, digits, after, List.tail_cons]

end Spelling

section Positional

variable (digits : Digits)

/-- A decimal is written with digits and, unless it is whole, with a point among
them. -/
theorem Digits.positional_eq :
    ∃ front back, front ≠ [] ∧ AreDigits front ∧ AreDigits back ∧
      (digits.positional = front ++ '.' :: back ∨ digits.positional = front ∧
        back = []) ∧
      (Nat.ofDigitChars 10 (front ++ back) 0 : ℚ) / 10 ^ back.length =
        digits.coefficient * 10 ^ digits.exponent := by
  have areWritten := areDigits_toDigits digits.coefficient
  have notNil : Nat.toDigits 10 digits.coefficient ≠ [] := Nat.toDigits_ne_nil
  have powers := zpow_mul_pow_toNat 10 (by norm_num) digits.exponent
  -- With places behind the point there are no zeros at the end.
  have fractional : (-digits.exponent).toNat ≠ 0 →
      (digits.coefficient : ℚ) / 10 ^ (-digits.exponent).toNat =
        digits.coefficient * 10 ^ digits.exponent := by
    intro hasPlaces
    have noZeros : digits.exponent.toNat = 0 := by omega
    rw [noZeros, pow_zero] at powers
    rw [div_eq_iff (by positivity), mul_assoc, powers, mul_one]
  unfold positional
  dsimp only
  split_ifs with isWhole hasWhole
  · refine ⟨_, [], ?_, areWritten.append
      (areDigits_zeros digits.exponent.toNat), nofun, .inr ⟨rfl, rfl⟩, ?_⟩
    · simp [notNil]
    · rw [isWhole, pow_zero, mul_one] at powers
      rw [List.append_nil, Nat.ofDigitChars_append,
        Nat.ofDigitChars_replicate_zero, Nat.ofDigitChars_ten_toDigits, powers]
      push_cast
      simp [mul_comm]
  · refine ⟨_, _, ?_, fun c member =>
      areWritten c (List.mem_of_mem_take member),
      fun c member => areWritten c (List.mem_of_mem_drop member), .inl rfl, ?_⟩
    · simp [notNil]
      omega
    · have length : ((Nat.toDigits 10 digits.coefficient).drop
          ((Nat.toDigits 10 digits.coefficient).length -
            (-digits.exponent).toNat)).length = (-digits.exponent).toNat := by
        rw [List.length_drop]
        omega
      rw [length, List.take_append_drop, Nat.ofDigitChars_ten_toDigits]
      exact fractional isWhole
  · refine ⟨['0'], _, List.cons_ne_nil _ _, by simp [AreDigits],
      (areDigits_zeros _).append areWritten, .inl rfl, ?_⟩
    rw [List.length_append, List.length_replicate,
      Nat.sub_add_cancel (not_lt.mp hasWhole), ← List.append_assoc,
      ← List.replicate_one, List.replicate_append_replicate,
      Nat.ofDigitChars_append, Nat.ofDigitChars_replicate_zero, Nat.mul_zero,
      Nat.ofDigitChars_ten_toDigits]
    exact fractional isWhole

/-- A decimal spells its value. -/
theorem Digits.spelledValue_positional :
    spelledValue digits.positional =
      digits.coefficient * 10 ^ digits.exponent := by
  obtain ⟨front, back, -, areFront, areBack, isPointed | ⟨isWhole, rfl⟩,
      same⟩ :=
    digits.positional_eq
  · rw [isPointed, spelledValue_of_point areFront areBack, same]
  · rw [isWhole, spelledValue_of_digits areFront, ← same]
    simp

/-- A decimal starts with a digit and goes on with digits and a point. -/
theorem Digits.spelled_positional :
    ∃ first rest, digits.positional = first :: rest ∧ first.isDigit = true ∧
      ∀ c ∈ rest, c = '.' ∨ c.isDigit = true := by
  obtain ⟨front, back, notNil, areFront, areBack, shape, -⟩ :=
    digits.positional_eq
  obtain ⟨first, rest, rfl⟩ := List.exists_cons_of_ne_nil notNil
  obtain ⟨isDigit, areRest⟩ := List.forall_mem_cons.mp areFront
  rcases shape with isPointed | ⟨isWhole, -⟩
  · refine ⟨first, rest ++ '.' :: back, isPointed, isDigit, ?_⟩
    intro c member
    simp only [List.mem_append, List.mem_cons] at member
    rcases member with inFront | isPoint | inBack
    · exact .inr (areRest c inFront)
    · exact .inl isPoint
    · exact .inr (areBack c inBack)
  · exact ⟨first, rest, isWhole, isDigit, fun c member =>
      .inr (areRest c member)⟩

end Positional

section Writing

/-- What is written for the parts of a double, apart from the sign. -/
def Binary.unsigned (number : Binary) : List Char :=
  if number.mantissa = 0 then ['0'] else (shortest number).positional

variable {number other : Binary}

/-- What is written for a finite number is its sign and the rest. -/
theorem write_of_finite
    {value : Float}
    (isFinite : Shape.ofFloat value = .finite number) :
    write value = signed number.negative number.unsigned := by
  simp only [write, isFinite, Binary.unsigned]
  split <;> rfl

/-- A number without its sign starts with a digit and goes on with digits and a
point. -/
theorem Binary.spelled_unsigned
    (number : Binary) :
    ∃ first rest, number.unsigned = first :: rest ∧ first.isDigit = true ∧
      ∀ c ∈ rest, c = '.' ∨ c.isDigit = true := by
  unfold unsigned
  split
  · exact ⟨'0', [], rfl, by decide, nofun⟩
  · exact (shortest number).spelled_positional

/-- The sign is known from the text, and so is what stands behind it. -/
theorem signed_injective
    (same : signed number.negative number.unsigned =
      signed other.negative other.unsigned) :
    number.negative = other.negative ∧ number.unsigned = other.unsigned := by
  obtain ⟨first, rest, spelled, isDigit, -⟩ := number.spelled_unsigned
  obtain ⟨firstOther, restOther, spelledOther, isDigitOther, -⟩ :=
    other.spelled_unsigned
  rw [spelled, spelledOther] at same ⊢
  have sameLetters := String.ofList_injective same
  cases negative : number.negative <;> cases negativeOther : other.negative <;>
    simp only [negative, negativeOther, Bool.false_eq_true, if_false,
      if_true] at sameLetters
  · exact ⟨rfl, sameLetters⟩
  · cases sameLetters
    cases isDigit
  · cases sameLetters
    cases isDigitOther
  · exact ⟨rfl, (List.cons.inj sameLetters).2⟩

/-- What is written for a number that is not zero spells a positive number in
its interval. -/
theorem Binary.spelledValue_unsigned
    (canonical : number.Canonical)
    (positive : 0 < number.mantissa) :
    (Interval.ofBinary number).Covers (spelledValue number.unsigned) ∧
      0 < spelledValue number.unsigned := by
  have covers := covers_shortest canonical positive
  rw [← Digits.spelledValue_positional] at covers
  rw [unsigned, if_neg positive.ne']
  refine ⟨covers, lt_of_lt_of_le (mul_pos ?_ number.quarter_pos)
    (covers.bounds positive).1.1⟩
  have mantissa : (1 : ℚ) ≤ number.mantissa := by exact_mod_cast positive
  have below : (number.below : ℚ) ≤ 2 := by
    unfold below
    split <;> norm_num
  linarith

/-- Numbers with one text apart from the sign have the same mantissa and
exponent. -/
theorem Binary.eq_of_unsigned_eq
    (canonical : number.Canonical)
    (canonicalOther : other.Canonical)
    (same : number.unsigned = other.unsigned) :
    number.exponent = other.exponent ∧ number.mantissa = other.mantissa := by
  have zero : spelledValue ['0'] = 0 := by
    simp [spelledValue, Nat.ofDigitChars]
  have isZero : ∀ {binary : Binary}, binary.mantissa = 0 →
      spelledValue binary.unsigned = 0 := by
    intro binary isZero
    rw [unsigned, if_pos isZero, zero]
  rcases Nat.eq_zero_or_pos number.mantissa with nothing | positive <;>
    rcases Nat.eq_zero_or_pos other.mantissa with nothingOther | positiveOther
  · have full := canonical.full
    have fullOther := canonicalOther.full
    have least := canonical.least
    have leastOther := canonicalOther.least
    omega
  · have above := (spelledValue_unsigned canonicalOther positiveOther).2
    rw [← same, isZero nothing] at above
    exact absurd above (lt_irrefl _)
  · have above := (spelledValue_unsigned canonical positive).2
    rw [same, isZero nothingOther] at above
    exact absurd above (lt_irrefl _)
  · have covers := (spelledValue_unsigned canonical positive).1
    rw [same] at covers
    exact covers.unique canonical canonicalOther positive positiveOther
      (spelledValue_unsigned canonicalOther positiveOther).1

/-- The text of a finite number starts with a digit or a sign and goes on with
digits and a point. -/
theorem write_spelled
    {value : Float}
    (isFinite : value.isFinite = true) :
    ∃ first rest, (write value).toList = first :: rest ∧
      (first = '-' ∨ first.isDigit = true) ∧ ∀ c ∈ rest,
        c = '.' ∨ c.isDigit = true := by
  obtain ⟨binary, shape, -, -⟩ := Shape.ofFloat_of_isFinite isFinite
  obtain ⟨first, rest, spelled, isDigit, areRest⟩ := binary.spelled_unsigned
  rw [write_of_finite shape, spelled, signed, String.toList_ofList]
  cases binary.negative with
  | false => exact ⟨first, rest, rfl, .inr isDigit, areRest⟩
  | true =>
      exact ⟨'-', first :: rest, rfl, .inl rfl, List.forall_mem_cons.mpr
        ⟨.inr isDigit, areRest⟩⟩

/-- Finite numbers with one text are the same. -/
theorem write_injective
    {value valueOther : Float}
    (isFinite : value.isFinite = true)
    (isFiniteOther : valueOther.isFinite = true)
    (same : write value = write valueOther) :
    value = valueOther := by
  obtain ⟨binary, shape, canonical, bits⟩ := Shape.ofFloat_of_isFinite isFinite
  obtain ⟨binaryOther, shapeOther, canonicalOther, bitsOther⟩ :=
    Shape.ofFloat_of_isFinite isFiniteOther
  rw [write_of_finite shape, write_of_finite shapeOther] at same
  obtain ⟨sameSign, sameUnsigned⟩ := signed_injective same
  obtain ⟨sameExponent, sameMantissa⟩ :=
    Binary.eq_of_unsigned_eq canonical canonicalOther sameUnsigned
  refine eq_of_toBits_eq ?_
  rw [bits, bitsOther, Binary.bits, Binary.bits, sameSign, sameExponent,
    sameMantissa]

end Writing

end LoxScript.Decimal
