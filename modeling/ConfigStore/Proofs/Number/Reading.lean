import ConfigStore.Number.Decimal
import ConfigStore.Proofs.Number.Nearest

/-! A decimal is read as the binary number nearest to the exact number that it is, and a binary number is converted to the
nearest one of another format. So decimals that are the same number are read as the same, however they are written. -/

namespace ConfigStore

open BinaryFormat

/-- The binary number nearest to a size, with a sign. -/
def Binary.ofSize (format : BinaryFormat) (negative : Bool) (size : ℚ) : Binary format :=
  .ofMagnitude format negative (format.nearestTo (size * 2 ^ format.unitExponent))

/-- The size of a finite binary number. -/
def BinaryFormat.size (format : BinaryFormat) (magnitude : ℕ) : ℚ :=
  format.units magnitude / 2 ^ format.unitExponent

/-- A decimal without its sign. -/
def Decimal.size (number : Decimal) : ℚ :=
  number.coefficient * 10 ^ number.exponent

variable {format target : BinaryFormat} {coefficient power magnitude : ℕ} {size : ℚ}

/-- A decimal is its size with a sign. -/
theorem Decimal.value_eq (number : Decimal) : number.value = unitSign number.negative * number.size := rfl

/-- Every ten is more than three doublings, so a large power of ten is past the range. -/
theorem nearestTo_large (filled : coefficient ≠ 0) (past : 2 ^ format.exponentBits < 3 * power) :
    format.nearestTo (coefficient * 10 ^ power * 2 ^ format.unitExponent) = format.infinity := by
  -- Doublings count alone, three for each ten.
  apply nearestTo_eq_infinity
  have one : 1 ≤ coefficient := Nat.one_le_iff_ne_zero.2 filled
  have exponents : format.fractionBits + (2 ^ format.exponentBits - 1) ≤ 3 * power + format.unitExponent := by
    simp only [unitExponent, Nat.pow_eq]
    omega
  have tens : 2 ^ (3 * power) ≤ 10 ^ power := by
    rw [Nat.pow_mul]
    exact Nat.pow_le_pow_left (by decide) power
  have whole : 2 ^ format.fractionBits * 2 ^ (2 ^ format.exponentBits - 1) ≤
      coefficient * 10 ^ power * 2 ^ format.unitExponent := by
    calc 2 ^ format.fractionBits * 2 ^ (2 ^ format.exponentBits - 1)
        ≤ 1 * 2 ^ (3 * power) * 2 ^ format.unitExponent := by
          rw [Nat.one_mul, ← Nat.pow_add, ← Nat.pow_add]
          exact Nat.pow_le_pow_right (by decide) exponents
      _ ≤ coefficient * 10 ^ power * 2 ^ format.unitExponent :=
          Nat.mul_le_mul_right _ (Nat.mul_le_mul one tens)
  exact_mod_cast whole

/-- So many tenths leave less than half a unit. -/
theorem nearestTo_small (past : format.unitExponent + Nat.log2 coefficient + 2 < 3 * power) :
    format.nearestTo (coefficient * 2 ^ format.unitExponent / 10 ^ power) = 0 := by
  -- The digits have fewer doublings than three for each ten take away.
  refine nearestTo_eq_zero (by positivity) ?_
  rw [div_lt_div_iff₀ (by positivity) two_pos, one_mul]
  have digits : coefficient < 2 ^ (Nat.log2 coefficient + 1) := Nat.lt_log2_self
  have whole : coefficient * 2 ^ format.unitExponent * 2 < 10 ^ power := by
    calc coefficient * 2 ^ format.unitExponent * 2
        < 2 ^ (Nat.log2 coefficient + 1) * 2 ^ format.unitExponent * 2 :=
          Nat.mul_lt_mul_of_pos_right (Nat.mul_lt_mul_of_pos_right digits (Nat.two_pow_pos _)) two_pos
      _ = 2 ^ (Nat.log2 coefficient + 1 + format.unitExponent + 1) := by rw [← Nat.pow_add, ← Nat.pow_succ]
      _ ≤ 2 ^ (3 * power) := Nat.pow_le_pow_right (by decide) (by omega)
      _ = 8 ^ power := Nat.pow_mul 2 3 power
      _ ≤ 10 ^ power := Nat.pow_le_pow_left (by decide) power
  exact_mod_cast whole

/-- The magnitude bits of a decimal are those nearest to its size. -/
theorem Decimal.magnitude_eq (format : BinaryFormat) (number : Decimal) :
    number.magnitude format = format.nearestTo (number.size * 2 ^ format.unitExponent) := by
  obtain ⟨negative, coefficient, exponent⟩ := number
  simp only [magnitude, size, Nat.pow_eq]
  -- The powers of ten that are settled without being written out come to the same.
  split
  · next zero => rw [zero, Nat.cast_zero, zero_mul, zero_mul, nearestTo_eq_zero le_rfl (by norm_num)]
  · next filled =>
    split
    · next raised =>
      obtain ⟨power, rfl⟩ := Int.eq_ofNat_of_zero_le raised
      rw [Int.natAbs_natCast, zpow_natCast]
      split
      · next past => rw [nearestTo_large filled past]
      · rw [nearest_eq_nearestTo format _ one_pos]
        push_cast
        rw [div_one]
    · next lowered =>
      obtain ⟨power, rfl⟩ : ∃ power : ℕ, exponent = -power := ⟨exponent.natAbs, by omega⟩
      have quotient : (coefficient : ℚ) * 10 ^ (-(power : ℤ)) * 2 ^ format.unitExponent =
          coefficient * 2 ^ format.unitExponent / 10 ^ power := by
        rw [zpow_neg, zpow_natCast]
        field_simp
      rw [Int.natAbs_neg, Int.natAbs_natCast, quotient]
      split
      · next past => rw [nearestTo_small past]
      · rw [nearest_eq_nearestTo format _ (by positivity)]
        push_cast
        rfl

/-- A decimal is read as the number nearest to its size, with its sign. -/
theorem Decimal.toBinary_eq (format : BinaryFormat) (number : Decimal) :
    number.toBinary format = .ofSize format number.negative number.size := by
  rw [toBinary, magnitude_eq, Binary.ofSize]

/-- The decimal of a binary number has the size of it. -/
theorem Decimal.size_ofMagnitude (format : BinaryFormat) (negative : Bool) (magnitude : ℕ) :
    (ofMagnitude format negative magnitude).size = format.size magnitude := by
  have value := value_ofMagnitude format false magnitude
  rw [value_eq] at value
  exact mul_left_cancel₀ (by simp [unitSign, ofMagnitude]) value

/-- Decimals that are the same number with the same sign have the same size. -/
theorem Decimal.size_congr {number other : Decimal} (sign : number.negative = other.negative)
    (value : number.value = other.value) : number.size = other.size := by
  rw [value_eq, value_eq, sign] at value
  refine mul_left_cancel₀ ?_ value
  cases other.negative <;> simp [unitSign]

/-- A finite number is converted to the nearest number of the other format. -/
theorem Binary.convert_finite (negative : Bool) {magnitude : ℕ} (bounded : magnitude < format.infinity) :
    (Binary.finite negative magnitude bounded).convert target = .ofSize target negative (format.size magnitude) := by
  -- Both round the same quotient.
  have quotient : format.size magnitude * 2 ^ target.unitExponent =
      (format.units magnitude * 2 ^ target.unitExponent : ℕ) / (2 ^ format.unitExponent : ℕ) := by
    rw [size]
    push_cast
    ring
  simp only [convert, ofSize, Nat.pow_eq]
  rw [nearest_eq_nearestTo target _ (by positivity), quotient]

/-- So many units are the size of a number. -/
theorem size_mul (format : BinaryFormat) (magnitude : ℕ) :
    format.size magnitude * 2 ^ format.unitExponent = format.units magnitude := by
  rw [BinaryFormat.size]
  field_simp

/-- A size that is nearest to a finite number is read as that number. -/
theorem Binary.ofSize_finite (negative : Bool) (finite : format.nearestTo (size * 2 ^ format.unitExponent) < format.infinity) :
    ofSize format negative size = .finite negative (format.nearestTo (size * 2 ^ format.unitExponent)) finite :=
  dif_pos finite

/-- The number that a size is read as is off by half of the least number at most, or as little as a significand can tell. -/
theorem size_nearestTo_near (nonneg : 0 ≤ size)
    (finite : format.nearestTo (size * 2 ^ format.unitExponent) < format.infinity) :
    |format.size (format.nearestTo (size * 2 ^ format.unitExponent)) - size| ≤
      max (1 / 2 ^ format.unitExponent) (size / 2 ^ format.fractionBits) / 2 := by
  -- A size is a number of units, so the bound in units is scaled.
  have units : (0 : ℚ) < 2 ^ format.unitExponent := by positivity
  have near := nearestTo_near (mul_nonneg nonneg units.le) finite
  generalize format.nearestTo (size * 2 ^ format.unitExponent) = magnitude at *
  have scaled : format.size magnitude - size =
      ((format.units magnitude : ℚ) - size * 2 ^ format.unitExponent) / 2 ^ format.unitExponent := by
    rw [BinaryFormat.size]
    field_simp
  have widths : max (1 / 2 ^ format.unitExponent) (size / 2 ^ format.fractionBits) / 2 =
      max 1 (size * 2 ^ format.unitExponent / 2 ^ format.fractionBits) / 2 / 2 ^ format.unitExponent := by
    rw [div_right_comm, ← max_div_div_right units.le]
    field_simp
  rw [scaled, abs_div, abs_of_pos units, widths]
  exact div_le_div_of_nonneg_right near units.le

end ConfigStore
