import ConfigStore.Proofs.Number.Rounding

/-! A number rounded to six significant digits is near, and whatever is near enough to the rounded number is rounded to it
again. Below a power of ten the digits stand ten times closer, so there it must be nearer. -/

namespace ConfigStore

variable {exact near : ℚ} {power : ℤ} {digits : ℕ} {whole : ℤ}

/-- A power of ten is ten times the one before it. -/
theorem ten_zpow_succ (power : ℤ) : (10 : ℚ) ^ (power + 1) = 10 ^ power * 10 :=
  zpow_add_one₀ (by norm_num) power

/-- The first of six digits counts as much as a hundred thousand of the last. -/
theorem ten_zpow_eq (power : ℤ) : (10 : ℚ) ^ power = 10 ^ 5 * 10 ^ (power - 5) := by
  rw [← zpow_natCast, ← zpow_add₀ (by norm_num)]
  norm_num

/-- A positive number has its first digit somewhere. -/
theorem exists_power (positive : 0 < exact) : ∃ power : ℤ, 10 ^ power ≤ exact ∧ exact < 10 ^ (power + 1) :=
  ⟨Int.log 10 exact, Int.zpow_log_le_self (by decide) positive, Int.lt_zpow_succ_log_self (by decide) exact⟩

section Decade

variable (low : 10 ^ power ≤ exact) (high : exact < 10 ^ (power + 1))

include low high

/-- Where the first digit stands tells where the sixth does. -/
theorem toSignificant_eq : toSignificant 6 exact = roundEven (exact / 10 ^ (power - 5)) * 10 ^ (power - 5) := by
  have positive : 0 < exact := lt_of_lt_of_le (zpow_pos (by norm_num) power) low
  have last : power + 1 - (6 : ℕ) = power - 5 := by omega
  rw [toSignificant, abs_of_pos positive, log_ten_eq low high, last]

/-- The rounded number is at most half of the last digit away. -/
theorem toSignificant_near : |toSignificant 6 exact - exact| ≤ 10 ^ (power - 5) / 2 := by
  rw [toSignificant_eq low high]
  exact abs_roundEven_mul_sub_le exact (zpow_pos (by norm_num) _)

/-- The rounded number is at least the power of ten. -/
theorem le_toSignificant : 10 ^ power ≤ toSignificant 6 exact := by
  -- The power of ten is a count of the sixth digit, and rounding is monotone.
  have unit : (0 : ℚ) < 10 ^ (power - 5) := zpow_pos (by norm_num) _
  rw [toSignificant_eq low high, ten_zpow_eq]
  rw [ten_zpow_eq] at low
  have count : ((10 ^ 5 : ℤ) : ℚ) ≤ exact / 10 ^ (power - 5) := by
    rw [le_div_iff₀ unit]
    exact_mod_cast low
  exact mul_le_mul_of_nonneg_right (by exact_mod_cast le_roundEven count) unit.le

/-- A number that is at most a count of the last digit is rounded to no more. -/
theorem toSignificant_le (below : exact ≤ whole * 10 ^ (power - 5)) : toSignificant 6 exact ≤ whole * 10 ^ (power - 5) := by
  have unit : (0 : ℚ) < 10 ^ (power - 5) := zpow_pos (by norm_num) _
  rw [toSignificant_eq low high]
  have count : exact / 10 ^ (power - 5) ≤ whole := by rwa [div_le_iff₀ unit]
  exact mul_le_mul_of_nonneg_right (by exact_mod_cast roundEven_le count) unit.le

/-- A number less than half of the last digit away from a count of it is rounded to that. -/
theorem toSignificant_eq_of_near (whole : ℤ) (close : |exact - whole * 10 ^ (power - 5)| < 10 ^ (power - 5) / 2) :
    toSignificant 6 exact = whole * 10 ^ (power - 5) := by
  -- Divided by what the last digit counts, the number is less than a half away from the count.
  have unit : (0 : ℚ) < 10 ^ (power - 5) := zpow_pos (by norm_num) _
  have scaled : exact / 10 ^ (power - 5) - whole = (exact - whole * 10 ^ (power - 5)) / 10 ^ (power - 5) := by field_simp
  have half : |exact / 10 ^ (power - 5) - whole| < 1 / 2 := by
    rw [scaled, abs_div, abs_of_pos unit, div_lt_iff₀ unit]
    linarith
  rw [toSignificant_eq low high, roundEven_eq half.le fun tie => absurd tie half.ne]

end Decade

/-- Six digits, or what is less than half of the last of them above them, keep their first digit where it is. -/
theorem lt_ten_zpow_succ (high : digits < 10 ^ 6) (close : near < digits * 10 ^ (power - 5) + 10 ^ (power - 5) / 2) :
    near < 10 ^ (power + 1) := by
  -- The greatest six digits are one count below the next power of ten.
  have unit : (0 : ℚ) < 10 ^ (power - 5) := zpow_pos (by norm_num) _
  have most : (digits : ℚ) ≤ 10 ^ 6 - 1 := by
    have whole : digits + 1 ≤ 10 ^ 6 := by omega
    have cast : ((digits + 1 : ℕ) : ℚ) ≤ (10 ^ 6 : ℕ) := by exact_mod_cast whole
    push_cast at cast
    linarith
  have scaled : (digits : ℚ) * 10 ^ (power - 5) ≤ (10 ^ 6 - 1) * 10 ^ (power - 5) := mul_le_mul_of_nonneg_right most unit.le
  rw [ten_zpow_succ, ten_zpow_eq]
  linarith

/-- A number that is near enough to six digits, and not below their power of ten, is rounded to them. -/
theorem toSignificant_of_above (high : digits < 10 ^ 6) (above : 10 ^ power ≤ near)
    (close : |near - digits * 10 ^ (power - 5)| < 10 ^ (power - 5) / 2) :
    toSignificant 6 near = digits * 10 ^ (power - 5) := by
  have side := (abs_lt.1 close).2
  have next : near < 10 ^ (power + 1) := lt_ten_zpow_succ high (by linarith)
  have same := toSignificant_eq_of_near above next digits (by exact_mod_cast close)
  exact_mod_cast same

/-- A number below a power of ten is rounded to it when it is near enough for the digits there. -/
theorem toSignificant_of_below (below : near < 10 ^ power) (close : |near - 10 ^ power| < 10 ^ (power - 6) / 2) :
    toSignificant 6 near = 10 ^ power := by
  have unit : (0 : ℚ) < 10 ^ (power - 6) := zpow_pos (by norm_num) _
  -- The power of ten is a count of the digit that stands one place further down.
  have last : power - 1 - 5 = power - 6 := by ring
  have step : power - 1 + 1 = power := by ring
  have ten : (10 : ℚ) ^ power = ((10 ^ 6 : ℤ) : ℚ) * 10 ^ (power - 1 - 5) := by
    have first := ten_zpow_eq (power - 1)
    have next := ten_zpow_succ (power - 1)
    rw [step] at next
    rw [next, first]
    push_cast
    ring
  have low : 10 ^ (power - 1) ≤ near := by
    have first := ten_zpow_eq (power - 1)
    rw [last] at first ten
    push_cast at ten
    have side := (abs_lt.1 close).1
    rw [first]
    linarith
  have same := toSignificant_eq_of_near low (by rwa [step]) (10 ^ 6) (by rwa [← ten, last])
  rw [same, ← ten]

/-- A number that is off by less than half a millionth of six digits is rounded to them. -/
theorem toSignificant_of_near (low : 10 ^ 5 ≤ digits) (high : digits < 10 ^ 6)
    (close : |near - digits * 10 ^ (power - 5)| < digits * 10 ^ (power - 5) / 2000000) :
    toSignificant 6 near = digits * 10 ^ (power - 5) := by
  have unit : (0 : ℚ) < 10 ^ (power - 5) := zpow_pos (by norm_num) _
  have most : (digits : ℚ) * 10 ^ (power - 5) ≤ 10 ^ 6 * 10 ^ (power - 5) :=
    mul_le_mul_of_nonneg_right (by exact_mod_cast high.le) unit.le
  by_cases above : 10 ^ power ≤ near
  · exact toSignificant_of_above high above (by linarith)
  · -- Only the least six digits have anything below their power of ten so near.
    have below := not_le.1 above
    have side := (abs_lt.1 close).1
    have least : (digits : ℚ) < 10 ^ 5 + 1 := by
      rw [ten_zpow_eq] at below
      have scaled : (digits : ℚ) * 10 ^ (power - 5) < (10 ^ 5 + 1) * 10 ^ (power - 5) := by linarith
      exact lt_of_mul_lt_mul_right scaled unit.le
    have whole : digits < 10 ^ 5 + 1 := by exact_mod_cast least
    obtain rfl : digits = 10 ^ 5 := by omega
    have ten : ((10 ^ 5 : ℕ) : ℚ) * 10 ^ (power - 5) = 10 ^ power := by
      rw [ten_zpow_eq power]
      push_cast
      rfl
    have finer : (10 : ℚ) ^ power / 2000000 = 10 ^ (power - 6) / 2 := by
      have next := ten_zpow_succ (power - 6)
      rw [show power - 6 + 1 = power - 5 by ring] at next
      rw [ten_zpow_eq power, next]
      ring
    rw [ten] at close ⊢
    rw [finer] at close
    exact toSignificant_of_below below close

end ConfigStore
