import ConfigStore.Proofs.Number.Reading

/-! How near numbers of 32 and of 64 bits come to a size. Those of 64 bits hold every one of 32 bits exactly, and between the
least and the greatest of these, they are off by as little as their significands can tell. -/

namespace ConfigStore

open BinaryFormat

variable {magnitude : ℕ} {size : ℚ}

theorem unitExponent_single : single.unitExponent = 149 := by decide

theorem unitExponent_double : double.unitExponent = 1074 := by decide

theorem fractionBits_single : single.fractionBits = 23 := rfl

theorem fractionBits_double : double.fractionBits = 52 := rfl

/-- A finite number of 32 bits is a significand of 24 digits, doubled at most so often. -/
theorem exists_single (bounded : magnitude < single.infinity) :
    ∃ significand doubled, single.units magnitude = significand * 2 ^ doubled ∧ significand < 2 ^ 24 ∧ doubled ≤ 253 := by
  obtain ⟨doubled, significand, doubles, small, rfl⟩ := exists_doubles single magnitude
  refine ⟨significand, doubled, doubles.units_eq, small, ?_⟩
  have range : single.infinity = 255 * 2 ^ 23 := by decide
  have full := doubles.full
  rw [range] at bounded
  rw [fractionBits_single] at *
  omega

/-- The greatest number of 32 bits. -/
def greatestSingle : ℚ :=
  (2 ^ 24 - 1) * 2 ^ 104

/-- No finite number of 32 bits is greater. -/
theorem size_le_greatestSingle (bounded : magnitude < single.infinity) : single.size magnitude ≤ greatestSingle := by
  -- A full significand that is doubled as often as can be is the greatest.
  obtain ⟨significand, doubled, units, small, few⟩ := exists_single bounded
  have digits : (significand : ℚ) ≤ 2 ^ 24 - 1 := by
    have whole : ((significand + 1 : ℕ) : ℚ) ≤ (2 ^ 24 : ℕ) := by exact_mod_cast small
    push_cast at whole
    linarith
  have powers : (2 : ℚ) ^ doubled ≤ 2 ^ 104 * 2 ^ 149 := by
    rw [← pow_add]
    exact pow_le_pow_right₀ (by norm_num) few
  have scaled : (significand : ℚ) * 2 ^ doubled ≤ (2 ^ 24 - 1) * (2 ^ 104 * 2 ^ 149) :=
    mul_le_mul digits powers (by positivity) (by norm_num)
  rw [BinaryFormat.size, units, unitExponent_single, greatestSingle, div_le_iff₀ (by positivity)]
  push_cast
  linarith

/-- A number of 32 bits that is not zero is one unit at least. -/
theorem le_size_single (filled : magnitude ≠ 0) : 1 / 2 ^ 149 ≤ single.size magnitude := by
  have one : (1 : ℚ) ≤ single.units magnitude := by exact_mod_cast single.units_pos (Nat.pos_of_ne_zero filled)
  rw [BinaryFormat.size, unitExponent_single]
  exact div_le_div_of_nonneg_right one (by positivity)

/-- A number of 64 bits holds a finite one of 32 bits exactly. -/
theorem convert_single (negative : Bool) (bounded : magnitude < single.infinity) :
    ∃ wide, ∃ within : wide < double.infinity,
      (Binary.finite negative magnitude bounded).convert double = .finite negative wide within ∧
        double.size wide = single.size magnitude := by
  -- The units of 64 bits are finer, so the significand stays and is only doubled more often.
  obtain ⟨significand, doubled, units, small, few⟩ := exists_single bounded
  have exact : single.size magnitude * 2 ^ double.unitExponent = significand * 2 ^ (doubled + 925) := by
    have finer : (2 : ℚ) ^ 1074 = 2 ^ 925 * 2 ^ 149 := by rw [← pow_add]
    rw [BinaryFormat.size, units, unitExponent_single, unitExponent_double, finer, pow_add]
    generalize (2 : ℚ) ^ 925 = more
    push_cast
    field_simp
  have finite : double.nearestTo (single.size magnitude * 2 ^ double.unitExponent) < double.infinity := by
    refine nearestTo_lt_infinity 1178 ?_ ?_ (by decide)
    · rw [exact]
      positivity
    · have digits : (significand : ℚ) < 2 ^ (double.fractionBits + 1) := by
        rw [fractionBits_double]
        exact_mod_cast small.trans (Nat.pow_lt_pow_right (by decide) (by decide))
      rw [exact]
      exact mul_lt_mul digits (pow_le_pow_right₀ (by norm_num) (by omega)) (by positivity) (by positivity)
  refine ⟨_, finite, by rw [Binary.convert_finite, Binary.ofSize_finite negative finite], ?_⟩
  have digits : significand < 2 ^ (double.fractionBits + 1) :=
    small.trans (Nat.pow_lt_pow_right (by decide) (by decide))
  rw [exact] at finite
  have same := units_nearestTo_scaled digits finite
  rw [BinaryFormat.size, exact, same]
  push_cast
  rw [← exact]
  field_simp

/-- A size in the range of 32 bits is read as a number of 64 bits with the precision of those. -/
theorem ofSize_double (negative : Bool) (low : 1 / 2 ^ 200 ≤ size) (high : size ≤ 2 ^ 128) :
    ∃ magnitude, ∃ within : magnitude < double.infinity,
      Binary.ofSize double negative size = .finite negative magnitude within ∧
        |double.size magnitude - size| ≤ size / 2 ^ 53 := by
  have nonneg : 0 ≤ size := le_trans (by positivity) low
  have finite : double.nearestTo (size * 2 ^ double.unitExponent) < double.infinity := by
    refine nearestTo_lt_infinity 1178 (by positivity) ?_ (by decide)
    rw [unitExponent_double, fractionBits_double, ← pow_add]
    calc size * 2 ^ 1074 ≤ 2 ^ 128 * 2 ^ 1074 := mul_le_mul_of_nonneg_right high (by positivity)
      _ = 2 ^ (128 + 1074) := (pow_add _ _ _).symm
      _ < 2 ^ (52 + 1 + 1178) := pow_lt_pow_right₀ (by norm_num) (by norm_num)
  refine ⟨_, finite, Binary.ofSize_finite negative finite, (size_nearestTo_near nonneg finite).trans ?_⟩
  -- The least number of 64 bits is far below what their significands can tell here.
  have least : (1 : ℚ) / 2 ^ double.unitExponent ≤ size / 2 ^ double.fractionBits := by
    rw [unitExponent_double, fractionBits_double]
    calc (1 : ℚ) / 2 ^ 1074 ≤ 1 / 2 ^ (200 + 52) :=
          one_div_le_one_div_of_le (by positivity) (pow_le_pow_right₀ (by norm_num) (by norm_num))
      _ = 1 / 2 ^ 200 / 2 ^ 52 := by rw [pow_add, div_div]
      _ ≤ size / 2 ^ 52 := div_le_div_of_nonneg_right low (by positivity)
  rw [max_eq_right least, fractionBits_double, div_div, ← pow_succ]

/-- A size in the range of 32 bits is read as a number of those that is off by half of the least one at most, or as little as
their significands can tell. -/
theorem ofSize_single (negative : Bool) (nonneg : 0 ≤ size) (high : size ≤ greatestSingle) :
    ∃ magnitude, ∃ within : magnitude < single.infinity,
      Binary.ofSize single negative size = .finite negative magnitude within ∧
        |single.size magnitude - size| ≤ max (1 / 2 ^ 149) (size / 2 ^ 23) / 2 := by
  -- The size is at most the greatest number, and so is the number nearest to it.
  have greatest : (single.units (single.infinity - 1) : ℚ) = greatestSingle * 2 ^ single.unitExponent := by
    have units : single.units (single.infinity - 1) = (2 ^ 24 - 1) * 2 ^ (104 + 149) := by decide
    rw [units, unitExponent_single, greatestSingle, pow_add]
    norm_num
  have most : single.nearestTo (size * 2 ^ single.unitExponent) ≤ single.infinity - 1 := by
    refine nearestTo_le (by positivity) ?_
    rw [greatest]
    exact mul_le_mul_of_nonneg_right high (by positivity)
  have positive : 0 < single.infinity := by decide
  have finite : single.nearestTo (size * 2 ^ single.unitExponent) < single.infinity := by omega
  exact ⟨_, finite, Binary.ofSize_finite negative finite, size_nearestTo_near nonneg finite⟩

/-- A size that is less than half of the least number of 32 bits away from a small one is read as that. -/
theorem ofSize_single_of_near (negative : Bool) (bounded : magnitude < single.infinity)
    (small : single.size magnitude < 1 / 2 ^ 126) (near : |size - single.size magnitude| < 1 / 2 ^ 150) :
    Binary.ofSize single negative size = .finite negative magnitude bounded := by
  -- So small a number has as many units as its bits say, and the size is less than half of one away.
  have units := size_mul single magnitude
  rw [unitExponent_single] at units
  have few : (single.units magnitude : ℚ) < 2 ^ 23 := by
    rw [← units]
    calc single.size magnitude * 2 ^ 149 < 1 / 2 ^ 126 * 2 ^ 149 := mul_lt_mul_of_pos_right small (by positivity)
      _ = 2 ^ 23 := by norm_num
  have self : single.units magnitude = magnitude := units_eq_self (by
    rw [fractionBits_single]
    exact lt_trans (by exact_mod_cast few : single.units magnitude < 2 ^ 23) (by decide))
  rw [self] at units few
  have close : |size * 2 ^ 149 - magnitude| < 1 / 2 := by
    rw [← units, ← sub_mul, abs_mul, abs_of_pos (by positivity : (0 : ℚ) < 2 ^ 149)]
    calc |size - single.size magnitude| * 2 ^ 149 < 1 / 2 ^ 150 * 2 ^ 149 := mul_lt_mul_of_pos_right near (by positivity)
      _ = 1 / 2 := by norm_num
  have nearest : single.nearestTo (size * 2 ^ single.unitExponent) = magnitude := by
    rw [unitExponent_single]
    refine nearestTo_eq_of_near ?_ close bounded.le
    have side := (abs_lt.1 close).2
    rw [fractionBits_single]
    calc size * 2 ^ 149 < magnitude + 1 / 2 := by linarith
      _ < 2 ^ 23 + 1 / 2 := by linarith
      _ < 2 ^ (23 + 1) := by norm_num
  have finite : single.nearestTo (size * 2 ^ single.unitExponent) < single.infinity := by rwa [nearest]
  rw [Binary.ofSize_finite negative finite]
  simp only [nearest]

end ConfigStore
