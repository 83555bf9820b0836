import Mathlib.Data.Rat.Floor
import Mathlib.Data.Int.Log
import Mathlib.Tactic.FieldSimp
import Mathlib.Tactic.Linarith
import Mathlib.Tactic.Ring
import ConfigStore.Number.Rounding

/-! Rounding an exact number to the nearest whole number, or to a number of significant digits, where a half goes to the
even neighbour. Rounded quotients are such whole numbers. -/

namespace ConfigStore

/-- The whole number nearest to an exact number, where a half goes to the even neighbour. -/
def roundEven (exact : ℚ) : ℤ :=
  let low := ⌊exact⌋
  if exact - low < 1 / 2 then low
  else if 1 / 2 < exact - low then low + 1
  else low + low % 2

/-- An exact number rounded to so many significant digits, where a half goes to the even neighbour. -/
def toSignificant (digits : ℕ) (exact : ℚ) : ℚ :=
  let last := Int.log 10 |exact| + 1 - digits
  roundEven (exact / 10 ^ last) * 10 ^ last

variable {exact : ℚ} {whole : ℤ}

/-- Nothing nearer is whole. -/
theorem roundEven_near (exact : ℚ) : |exact - roundEven exact| ≤ 1 / 2 := by
  have low := Int.floor_le exact
  have high := Int.lt_floor_add_one exact
  have parity : ((⌊exact⌋ % 2 : ℤ) : ℚ) = 0 ∨ ((⌊exact⌋ % 2 : ℤ) : ℚ) = 1 := by
    rcases Int.emod_two_eq_zero_or_one ⌊exact⌋ with even | odd
    · exact .inl (by rw [even, Int.cast_zero])
    · exact .inr (by rw [odd, Int.cast_one])
  -- Below a half the floor is near, above it the next number, and at a half both are.
  rw [abs_le, roundEven]
  split
  · constructor <;> linarith
  · split
    · push_cast
      constructor <;> linarith
    · push_cast
      rcases parity with even | odd
      · rw [even]
        constructor <;> linarith
      · rw [odd]
        constructor <;> linarith

/-- A half goes to the even neighbour. -/
theorem roundEven_even (half : |exact - roundEven exact| = 1 / 2) : roundEven exact % 2 = 0 := by
  have low := Int.floor_le exact
  have high := Int.lt_floor_add_one exact
  -- In the first two cases the distance is less than a half, and in the last the parity is added.
  revert half
  rw [roundEven]
  split
  · intro half
    rw [abs_of_nonneg (by linarith)] at half
    linarith
  · split
    · intro half
      push_cast at half
      rw [abs_of_nonpos (by linarith)] at half
      linarith
    · omega

/-- Only one whole number is as near as that and even at a half. -/
theorem roundEven_eq (near : |exact - whole| ≤ 1 / 2) (even : |exact - whole| = 1 / 2 → whole % 2 = 0) :
    roundEven exact = whole := by
  have close := roundEven_near exact
  have parity := @roundEven_even exact
  generalize roundEven exact = rounded at close parity
  -- Two whole numbers so near are the same or neighbours, and neighbours are both a half away.
  rw [abs_le] at near close
  have gap : |((rounded - whole : ℤ) : ℚ)| ≤ 1 := by
    rw [abs_le]
    push_cast
    constructor <;> linarith
  rw [← Int.cast_abs] at gap
  have step : |rounded - whole| ≤ 1 := by exact_mod_cast gap
  rw [abs_le] at step
  by_contra other
  rcases (by omega : rounded = whole + 1 ∨ rounded = whole - 1) with rfl | rfl
  · push_cast at close parity
    have there : exact - whole = 1 / 2 := by linarith
    have here : exact - (whole + 1) = -(1 / 2) := by linarith
    have first := parity (by rw [here, abs_neg, abs_of_pos (by norm_num)])
    have second := even (by rw [there, abs_of_pos (by norm_num)])
    omega
  · push_cast at close parity
    have there : exact - whole = -(1 / 2) := by linarith
    have here : exact - (whole - 1) = 1 / 2 := by linarith
    have first := parity (by rw [here, abs_of_pos (by norm_num)])
    have second := even (by rw [there, abs_neg, abs_of_pos (by norm_num)])
    omega

/-- Rounding to a whole count of a unit is off by half of it at most. -/
theorem abs_roundEven_mul_sub_le (exact : ℚ) {unit : ℚ} (positive : 0 < unit) :
    |roundEven (exact / unit) * unit - exact| ≤ unit / 2 := by
  have scaled : roundEven (exact / unit) * unit - exact = -(exact / unit - roundEven (exact / unit)) * unit := by
    field_simp
    ring
  rw [scaled, abs_mul, abs_neg, abs_of_pos positive]
  calc |exact / unit - roundEven (exact / unit)| * unit
      ≤ 1 / 2 * unit := mul_le_mul_of_nonneg_right (roundEven_near _) positive.le
    _ = unit / 2 := by ring

/-- What is not above a whole number is not rounded above it. -/
theorem roundEven_le (below : exact ≤ whole) : roundEven exact ≤ whole := by
  have near := (abs_le.1 (roundEven_near exact)).1
  have half : ((roundEven exact : ℤ) : ℚ) < (whole + 1 : ℤ) := by
    push_cast
    linarith
  have step : roundEven exact < whole + 1 := by exact_mod_cast half
  omega

/-- What is not below a whole number is not rounded below it. -/
theorem le_roundEven (above : whole ≤ exact) : whole ≤ roundEven exact := by
  have near := (abs_le.1 (roundEven_near exact)).2
  have half : ((whole - 1 : ℤ) : ℚ) < roundEven exact := by
    push_cast
    linarith
  have step : whole - 1 < roundEven exact := by exact_mod_cast half
  omega

/-- Rounding does not see the sign. -/
theorem roundEven_neg (exact : ℚ) : roundEven (-exact) = -roundEven exact := by
  have same : |-exact - (-roundEven exact : ℤ)| = |exact - roundEven exact| := by
    rw [← abs_neg]
    push_cast
    ring_nf
  refine roundEven_eq (same ▸ roundEven_near exact) fun half => ?_
  have even := roundEven_even (same ▸ half)
  omega

/-- A rounded quotient is the rounded exact quotient. -/
theorem roundDiv_eq_roundEven (numerator : ℕ) {denominator : ℕ} (positive : 0 < denominator) :
    (roundDiv numerator denominator : ℤ) = roundEven (numerator / denominator) := by
  have castPositive : (0 : ℚ) < denominator := by exact_mod_cast positive
  have parts : (denominator : ℚ) * (numerator / denominator : ℕ) + (numerator % denominator : ℕ) = numerator := by
    exact_mod_cast Nat.div_add_mod numerator denominator
  have low : ⌊(numerator : ℚ) / denominator⌋ = (numerator / denominator : ℕ) := by
    rw [Rat.floor_natCast_div_natCast]
    exact (Int.natCast_div ..).symm
  have rest : (numerator : ℚ) / denominator - (numerator / denominator : ℕ) = (numerator % denominator : ℕ) / denominator := by
    field_simp
    linarith
  -- The remainder against the denominator is what the fraction is against one.
  have below : (numerator % denominator : ℕ) / (denominator : ℚ) < 1 / 2 ↔ 2 * (numerator % denominator) < denominator := by
    rw [div_lt_div_iff₀ castPositive two_pos, one_mul, mul_comm]
    exact_mod_cast Iff.rfl
  have above : 1 / 2 < (numerator % denominator : ℕ) / (denominator : ℚ) ↔ denominator < 2 * (numerator % denominator) := by
    rw [div_lt_div_iff₀ two_pos castPositive, one_mul, mul_comm]
    exact_mod_cast Iff.rfl
  rw [roundDiv, roundEven, low]
  simp only [Int.cast_natCast, rest, below, above]
  split
  · rfl
  · split
    · push_cast
      rfl
    · push_cast
      rfl

/-- Where rounding carries into a new digit, the digits of the carry are those of rounding one place further in front. -/
theorem roundEven_carry (carried : roundEven exact = 10 * whole) : roundEven (exact / 10) = whole := by
  have near := roundEven_near exact
  rw [carried, abs_le] at near
  push_cast at near
  have close : |exact / 10 - whole| ≤ 1 / 20 := by
    rw [abs_le]
    constructor <;> linarith
  -- A twentieth is less than a half.
  exact roundEven_eq (by linarith) fun half => by linarith

/-- Rounding to significant digits does not see the sign either. -/
theorem toSignificant_neg (digits : ℕ) (exact : ℚ) : toSignificant digits (-exact) = -toSignificant digits exact := by
  simp only [toSignificant, abs_neg, neg_div, roundEven_neg]
  push_cast
  ring

/-- The power of ten of the first digit lies between two powers of ten. -/
theorem log_ten_eq {power : ℤ} (low : 10 ^ power ≤ exact) (high : exact < 10 ^ (power + 1)) : Int.log 10 exact = power := by
  have positive : 0 < exact := lt_of_lt_of_le (zpow_pos (by norm_num) power) low
  have above := (Int.zpow_le_iff_le_log (by decide) positive).1 (by exact_mod_cast low : ((10 : ℕ) : ℚ) ^ power ≤ exact)
  have below := (Int.lt_zpow_iff_log_lt (by decide) positive).1
    (by exact_mod_cast high : exact < ((10 : ℕ) : ℚ) ^ (power + 1))
  omega

end ConfigStore
