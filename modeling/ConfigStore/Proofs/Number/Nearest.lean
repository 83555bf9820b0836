import Mathlib.Algebra.Order.Floor.Semifield
import ConfigStore.Number.Binary
import ConfigStore.Proofs.Number.Exact
import ConfigStore.Proofs.Number.Rounding

/-! The binary number nearest to an exact number of units. It is found from the number alone, however it is written as a
quotient, it is the number itself where that is a binary number, and otherwise it is off by half the spacing at most. -/

namespace ConfigStore.BinaryFormat

variable {format : BinaryFormat} {exact : ℚ} {magnitude doubled significand : ℕ}

/-- How often the spacing of the numbers around an exact number is doubled. -/
def doublings (format : BinaryFormat) (exact : ℚ) : ℕ :=
  Nat.log2 ⌊exact⌋₊ - format.fractionBits

/-- An exact number rounded to a whole count of the spacing around it. -/
def rounded (format : BinaryFormat) (exact : ℚ) : ℕ :=
  (roundEven (exact / 2 ^ format.doublings exact)).toNat

/-- The magnitude bits of the binary number nearest to an exact number of units. -/
def nearestTo (format : BinaryFormat) (exact : ℚ) : ℕ :=
  min (format.doublings exact * 2 ^ format.fractionBits + format.rounded exact) format.infinity

/-- A significand that can be doubled so often: a full one, unless it is not doubled at all. -/
structure Doubles (format : BinaryFormat) (doubled significand : ℕ) : Prop where
  /-- It has no more digits than a significand, or is the least number with one more. -/
  most : significand ≤ 2 ^ (format.fractionBits + 1)
  /-- It has all of its digits if it is doubled. -/
  full : doubled = 0 ∨ 2 ^ format.fractionBits ≤ significand

/-- The bits that a doubled significand makes stand for as many units as it comes to. -/
theorem Doubles.units_eq (doubles : format.Doubles doubled significand) :
    format.units (doubled * 2 ^ format.fractionBits + significand) = significand * 2 ^ doubled := by
  obtain ⟨most, full⟩ := doubles
  have one : 0 < 2 ^ format.fractionBits := Nat.two_pow_pos _
  rw [Nat.pow_succ] at most
  simp only [units, Nat.pow_eq]
  generalize 2 ^ format.fractionBits = size at *
  -- The exponent field counts the doublings, and one more for a full significand.
  by_cases small : significand < size
  · obtain rfl : doubled = 0 := by omega
    simp [Nat.mod_eq_of_lt small, Nat.div_eq_of_lt small]
  · obtain ⟨rest, rfl⟩ := Nat.exists_eq_add_of_le (Nat.le_of_not_lt small)
    have step : doubled * size + (size + rest) = rest + (doubled + 1) * size := by ring
    rw [step, Nat.add_mul_mod_self_right, Nat.add_mul_div_right _ _ one]
    by_cases carried : rest = size
    · subst carried
      rw [Nat.mod_self, Nat.div_self one, if_neg (by omega), Nat.add_zero, show 1 + (doubled + 1) - 1 = doubled + 1 by omega]
      ring
    · have less : rest < size := by omega
      rw [Nat.mod_eq_of_lt less, Nat.div_eq_of_lt less, if_neg (by omega), show 0 + (doubled + 1) - 1 = doubled by omega]

/-- Magnitude bits are those of a doubled significand. -/
theorem exists_doubles (format : BinaryFormat) (magnitude : ℕ) :
    ∃ doubled significand, format.Doubles doubled significand ∧ significand < 2 ^ (format.fractionBits + 1) ∧
      magnitude = doubled * 2 ^ format.fractionBits + significand := by
  have one : 0 < 2 ^ format.fractionBits := Nat.two_pow_pos _
  have parts := Nat.div_add_mod magnitude (2 ^ format.fractionBits)
  have less := Nat.mod_lt magnitude one
  have twice : 2 ^ (format.fractionBits + 1) = 2 ^ format.fractionBits * 2 := Nat.pow_succ ..
  -- The exponent fields zero and one both stand for no doubling.
  generalize same : magnitude / 2 ^ format.fractionBits = exponent at parts
  rw [Nat.mul_comm] at parts
  cases exponent with
  | zero =>
    rw [Nat.zero_mul, Nat.zero_add] at parts
    exact ⟨0, magnitude, ⟨by omega, .inl rfl⟩, by omega, by rw [Nat.zero_mul, Nat.zero_add]⟩
  | succ exponent =>
    rw [Nat.add_mul, Nat.one_mul] at parts
    exact ⟨exponent, 2 ^ format.fractionBits + magnitude % 2 ^ format.fractionBits, ⟨by omega, .inr (by omega)⟩, by omega,
      by omega⟩

/-- A number is below twice the least full significand at its spacing. -/
theorem lt_doublings (format : BinaryFormat) (exact : ℚ) :
    exact < 2 ^ (format.fractionBits + 1) * 2 ^ format.doublings exact := by
  -- The floor has one binary digit more than the fraction and the doublings come to, at most.
  have floor := Nat.lt_floor_add_one exact
  have above : ⌊exact⌋₊ + 1 ≤ 2 ^ (format.fractionBits + 1 + format.doublings exact) := by
    have log : ⌊exact⌋₊ < 2 ^ (Nat.log2 ⌊exact⌋₊ + 1) := Nat.lt_log2_self
    have more : 2 ^ (Nat.log2 ⌊exact⌋₊ + 1) ≤ 2 ^ (format.fractionBits + 1 + format.doublings exact) :=
      Nat.pow_le_pow_right (by decide) (by rw [doublings]; omega)
    omega
  have cast : ((⌊exact⌋₊ + 1 : ℕ) : ℚ) ≤ (2 ^ (format.fractionBits + 1 + format.doublings exact) : ℕ) := by
    exact_mod_cast above
  rw [← pow_add]
  push_cast at cast
  linarith

/-- It is at least the least full significand there, unless the spacing is one unit. -/
theorem doublings_le_exact (format : BinaryFormat) (nonneg : 0 ≤ exact) :
    format.doublings exact = 0 ∨ 2 ^ format.fractionBits * 2 ^ format.doublings exact ≤ exact := by
  by_cases undoubled : format.doublings exact = 0
  · exact .inl undoubled
  · -- With doublings, the first binary digit of the floor stands as far up as they and the fraction come to.
    refine .inr ?_
    have floor := Nat.floor_le nonneg
    have nonzero : ⌊exact⌋₊ ≠ 0 := by
      intro zero
      rw [doublings, zero] at undoubled
      simp at undoubled
    have below : 2 ^ (format.fractionBits + format.doublings exact) ≤ ⌊exact⌋₊ := by
      have log := Nat.log2_self_le nonzero
      have same : format.fractionBits + format.doublings exact = Nat.log2 ⌊exact⌋₊ := by
        rw [doublings] at *
        omega
      rwa [same]
    have cast : ((2 ^ (format.fractionBits + format.doublings exact) : ℕ) : ℚ) ≤ ⌊exact⌋₊ := by exact_mod_cast below
    rw [← pow_add]
    push_cast at cast
    linarith

/-- The spacing is no wider than what a number is below. -/
theorem doublings_le (below : exact < 2 ^ (format.fractionBits + 1) * 2 ^ doubled) : format.doublings exact ≤ doubled := by
  -- The least full significand at the spacing is below the bound, and powers compare by their exponents.
  by_cases nonneg : 0 ≤ exact
  · rcases doublings_le_exact format nonneg with zero | full
    · omega
    · have powers : (2 : ℚ) ^ (format.fractionBits + format.doublings exact) < 2 ^ (format.fractionBits + 1 + doubled) := by
        rw [pow_add, pow_add _ _ doubled]
        linarith
      have exponents := (pow_lt_pow_iff_right₀ (by norm_num : (1 : ℚ) < 2)).1 powers
      omega
  · rw [doublings, Nat.floor_of_nonpos (by linarith)]
    simp

/-- It is no narrower than what a number is not below. -/
theorem le_doublings (above : 2 ^ format.fractionBits * 2 ^ doubled ≤ exact) : doubled ≤ format.doublings exact := by
  have high := lt_doublings format exact
  have powers : (2 : ℚ) ^ (format.fractionBits + doubled) < 2 ^ (format.fractionBits + 1 + format.doublings exact) := by
    rw [pow_add, pow_add _ _ (format.doublings exact)]
    linarith
  have exponents := (pow_lt_pow_iff_right₀ (by norm_num : (1 : ℚ) < 2)).1 powers
  omega

/-- The rounded count is the whole number nearest to the exact one. -/
theorem rounded_cast (format : BinaryFormat) (nonneg : 0 ≤ exact) :
    (format.rounded exact : ℤ) = roundEven (exact / 2 ^ format.doublings exact) := by
  have nonneg : ((0 : ℤ) : ℚ) ≤ exact / 2 ^ format.doublings exact := by
    push_cast
    positivity
  rw [rounded, Int.toNat_of_nonneg (le_roundEven nonneg)]

/-- A rounded number is at most a whole count that the number is at most. -/
theorem rounded_le (nonneg : 0 ≤ exact) (below : exact ≤ significand * 2 ^ format.doublings exact) :
    format.rounded exact ≤ significand := by
  -- Rounding is monotone, and a whole number is its own.
  have quotient : exact / 2 ^ format.doublings exact ≤ ((significand : ℤ) : ℚ) := by
    rw [div_le_iff₀ (by positivity)]
    exact_mod_cast below
  have count := roundEven_le quotient
  rw [← rounded_cast format nonneg] at count
  exact_mod_cast count

/-- It is at least a whole count that the number is at least. -/
theorem le_rounded (nonneg : 0 ≤ exact) (above : significand * 2 ^ format.doublings exact ≤ exact) :
    significand ≤ format.rounded exact := by
  have quotient : ((significand : ℤ) : ℚ) ≤ exact / 2 ^ format.doublings exact := by
    rw [le_div_iff₀ (by positivity)]
    exact_mod_cast above
  have count := le_roundEven quotient
  rw [← rounded_cast format nonneg] at count
  exact_mod_cast count

/-- The rounded count is a significand that can be doubled as often as it is. -/
theorem doubles_rounded (format : BinaryFormat) (nonneg : 0 ≤ exact) :
    format.Doubles (format.doublings exact) (format.rounded exact) where
  most := rounded_le nonneg (by exact_mod_cast (lt_doublings format exact).le)
  full := (doublings_le_exact format nonneg).imp_right fun full => le_rounded nonneg (by exact_mod_cast full)

/-- Where the nearest number is finite, its units are the rounded count of the spacing. -/
theorem units_nearestTo (nonneg : 0 ≤ exact) (finite : format.nearestTo exact < format.infinity) :
    format.units (format.nearestTo exact) = format.rounded exact * 2 ^ format.doublings exact := by
  rw [nearestTo] at *
  rw [min_eq_left (by omega), (doubles_rounded format nonneg).units_eq]

/-- The nearest number is at most one that the number is at most. -/
theorem nearestTo_le (nonneg : 0 ≤ exact) (below : exact ≤ format.units magnitude) : format.nearestTo exact ≤ magnitude := by
  obtain ⟨doubled, significand, doubles, small, rfl⟩ := exists_doubles format magnitude
  rw [doubles.units_eq] at below
  push_cast at below
  have spaced : format.doublings exact ≤ doubled := by
    refine doublings_le (lt_of_le_of_lt below ?_)
    have cast : (significand : ℚ) < 2 ^ (format.fractionBits + 1) := by exact_mod_cast small
    exact mul_lt_mul_of_pos_right cast (by positivity)
  refine (min_le_left _ _).trans ?_
  -- At the same spacing the counts compare, and at a narrower one the bits of the spacing do.
  rcases spaced.eq_or_lt with same | narrower
  · have count := rounded_le nonneg (same ▸ below)
    rw [same]
    omega
  · have most := (doubles_rounded format nonneg).most
    have full := doubles.full.resolve_left (by omega)
    obtain ⟨more, rfl⟩ := Nat.exists_eq_add_of_lt narrower
    rw [Nat.pow_succ] at most
    have split : (format.doublings exact + more + 1) * 2 ^ format.fractionBits =
        format.doublings exact * 2 ^ format.fractionBits + more * 2 ^ format.fractionBits + 2 ^ format.fractionBits := by ring
    omega

/-- The nearest number is at least a finite one, or infinity, that the number is at least. -/
theorem le_nearestTo (above : format.units magnitude ≤ exact) (bounded : magnitude ≤ format.infinity) :
    magnitude ≤ format.nearestTo exact := by
  have nonneg : 0 ≤ exact := le_trans (Nat.cast_nonneg _) above
  refine le_min ?_ bounded
  obtain ⟨doubled, significand, doubles, small, rfl⟩ := exists_doubles format magnitude
  rw [doubles.units_eq] at above
  push_cast at above
  have spaced : doubled ≤ format.doublings exact := by
    rcases doubles.full with rfl | full
    · exact Nat.zero_le _
    · refine le_doublings (le_trans ?_ above)
      have cast : (2 : ℚ) ^ format.fractionBits ≤ significand := by exact_mod_cast full
      exact mul_le_mul_of_nonneg_right cast (by positivity)
  -- As before, with the spacings the other way around.
  rcases spaced.eq_or_lt with same | wider
  · have count := le_rounded nonneg (same ▸ above)
    rw [← same]
    omega
  · have full := (doubles_rounded format nonneg).full.resolve_left (by omega)
    obtain ⟨more, split⟩ := Nat.exists_eq_add_of_lt wider
    rw [Nat.pow_succ] at small
    have parts : (doubled + more + 1) * 2 ^ format.fractionBits =
        doubled * 2 ^ format.fractionBits + more * 2 ^ format.fractionBits + 2 ^ format.fractionBits := by ring
    rw [split, parts]
    omega

/-- A binary number is nearest to itself. -/
theorem nearestTo_units (bounded : magnitude ≤ format.infinity) : format.nearestTo (format.units magnitude) = magnitude :=
  le_antisymm (nearestTo_le (Nat.cast_nonneg _) le_rfl) (le_nearestTo le_rfl bounded)

/-- The nearest number is off by half the spacing at most. -/
theorem abs_units_nearestTo_sub_le (nonneg : 0 ≤ exact) (finite : format.nearestTo exact < format.infinity) :
    |(format.units (format.nearestTo exact) : ℚ) - exact| ≤ 2 ^ format.doublings exact / 2 := by
  -- The rounded count is off by half of one, and each counts as much as the spacing.
  have count : (format.rounded exact : ℚ) = roundEven (exact / 2 ^ format.doublings exact) := by
    exact_mod_cast rounded_cast format nonneg
  rw [units_nearestTo nonneg finite]
  push_cast
  rw [count]
  exact abs_roundEven_mul_sub_le exact (by positivity)

/-- That is half a unit at most, or as little as a significand can tell. -/
theorem nearestTo_near (nonneg : 0 ≤ exact) (finite : format.nearestTo exact < format.infinity) :
    |(format.units (format.nearestTo exact) : ℚ) - exact| ≤ max 1 (exact / 2 ^ format.fractionBits) / 2 := by
  -- A spacing is one unit, or the number is at least a full significand of it.
  have spacing : (2 : ℚ) ^ format.doublings exact ≤ max 1 (exact / 2 ^ format.fractionBits) := by
    rcases doublings_le_exact format nonneg with zero | full
    · rw [zero, pow_zero]
      exact le_max_left _ _
    · refine le_max_of_le_right ?_
      rw [le_div_iff₀ (by positivity)]
      linarith
  exact (abs_units_nearestTo_sub_le nonneg finite).trans (by linarith)

/-- A doubled significand is nearest to itself unless it is past the range. -/
theorem units_nearestTo_scaled (small : significand < 2 ^ (format.fractionBits + 1))
    (finite : format.nearestTo (significand * 2 ^ doubled) < format.infinity) :
    format.units (format.nearestTo (significand * 2 ^ doubled)) = significand * 2 ^ doubled := by
  have nonneg : (0 : ℚ) ≤ significand * 2 ^ doubled := by positivity
  have cast : (significand : ℚ) < 2 ^ (format.fractionBits + 1) := by exact_mod_cast small
  have spaced : format.doublings (significand * 2 ^ doubled) ≤ doubled :=
    doublings_le (mul_lt_mul_of_pos_right cast (by positivity))
  rw [units_nearestTo nonneg finite]
  -- The spacing around it divides it.
  generalize same : format.doublings ((significand : ℚ) * 2 ^ doubled) = spacing at *
  obtain ⟨more, rfl⟩ := Nat.exists_eq_add_of_le spaced
  have whole : (significand : ℚ) * 2 ^ (spacing + more) =
      (significand * 2 ^ more : ℕ) * 2 ^ format.doublings ((significand : ℚ) * 2 ^ (spacing + more)) := by
    rw [same, pow_add]
    push_cast
    ring
  rw [le_antisymm (rounded_le nonneg whole.le) (le_rounded nonneg whole.ge), pow_add]
  ring

/-- What is well within the range is nearest to a finite number. -/
theorem nearestTo_lt_infinity (doubled : ℕ) (nonneg : 0 ≤ exact)
    (below : exact < 2 ^ (format.fractionBits + 1) * 2 ^ doubled) (room : doubled + 3 < 2 ^ format.exponentBits) :
    format.nearestTo exact < format.infinity := by
  have spaced := doublings_le below
  have most := (doubles_rounded format nonneg).most
  have one : 0 < 2 ^ format.fractionBits := Nat.two_pow_pos _
  -- The rounded count comes to two more steps of the exponent field at most.
  have bits : (format.doublings exact + 2) * 2 ^ format.fractionBits < format.infinity :=
    Nat.mul_lt_mul_of_pos_right (by simp only [Nat.pow_eq]; omega) one
  refine lt_of_le_of_lt (min_le_left _ _) (lt_of_le_of_lt ?_ bits)
  rw [Nat.pow_succ] at most
  rw [Nat.add_mul]
  omega

/-- Magnitude bits of no doubled significand are as many units. -/
theorem units_eq_self (small : format.units magnitude < 2 ^ (format.fractionBits + 1)) :
    format.units magnitude = magnitude := by
  obtain ⟨doubled, significand, doubles, -, rfl⟩ := exists_doubles format magnitude
  rw [doubles.units_eq] at *
  rcases Nat.eq_zero_or_pos doubled with rfl | positive
  · simp
  · -- A full significand that is doubled is too large.
    have full := doubles.full.resolve_left (by omega)
    have twice : 2 ≤ 2 ^ doubled := by
      calc 2 = 2 ^ 1 := rfl
        _ ≤ 2 ^ doubled := Nat.pow_le_pow_right (by decide) positive
    have large := Nat.mul_le_mul full twice
    rw [← Nat.pow_succ] at large
    omega

/-- Where the spacing is one unit, the nearest number is the only whole one that is less than half a unit away. -/
theorem nearestTo_eq_of_near (below : exact < 2 ^ (format.fractionBits + 1)) (near : |exact - magnitude| < 1 / 2)
    (bounded : magnitude ≤ format.infinity) : format.nearestTo exact = magnitude := by
  -- Nothing is doubled, so the count is the nearest whole number.
  have spaced : format.doublings exact ≤ 0 := doublings_le (by rwa [pow_zero, mul_one])
  have zero := Nat.le_zero.1 spaced
  have count : roundEven exact = (magnitude : ℤ) := by
    refine roundEven_eq ?_ fun half => ?_
    · push_cast
      exact near.le
    · push_cast at half
      exact absurd half near.ne
  rw [nearestTo, rounded, zero, pow_zero, div_one, count, Int.toNat_natCast, Nat.zero_mul, Nat.zero_add, min_eq_left bounded]

/-- What is less than half a unit is nearest to zero. -/
theorem nearestTo_eq_zero (nonneg : 0 ≤ exact) (small : exact < 1 / 2) : format.nearestTo exact = 0 := by
  have one : (1 : ℚ) ≤ 2 ^ (format.fractionBits + 1) := one_le_pow₀ (by norm_num)
  refine nearestTo_eq_of_near (by linarith) ?_ (Nat.zero_le _)
  rw [Nat.cast_zero, sub_zero, abs_of_nonneg nonneg]
  exact small

/-- What has so many doublings that the exponent field cannot count them is nearest to infinity. -/
theorem nearestTo_eq_infinity (large : 2 ^ format.fractionBits * 2 ^ (2 ^ format.exponentBits - 1) ≤ exact) :
    format.nearestTo exact = format.infinity := by
  have spaced := le_doublings large
  refine min_eq_right ((Nat.mul_le_mul_right _ spaced).trans (Nat.le_add_right _ _))

/-- A quotient of units is rounded as the exact number that it is. -/
theorem nearest_eq_nearestTo (format : BinaryFormat) (numerator : ℕ) {denominator : ℕ} (positive : 0 < denominator) :
    format.nearest numerator denominator = format.nearestTo (numerator / denominator) := by
  -- The whole part of the quotient tells the spacing, and rounding the quotient is rounding the number.
  have nonneg : (0 : ℚ) ≤ numerator / denominator := by positivity
  have shift : Nat.log2 (numerator / denominator) - format.fractionBits =
      format.doublings ((numerator : ℚ) / denominator) := by rw [doublings, Nat.floor_div_eq_div]
  have quotient : (numerator : ℚ) / denominator / 2 ^ format.doublings ((numerator : ℚ) / denominator) =
      numerator / (denominator * 2 ^ format.doublings ((numerator : ℚ) / denominator) : ℕ) := by
    push_cast
    rw [div_div]
  have count : roundDiv numerator (denominator * 2 ^ format.doublings ((numerator : ℚ) / denominator)) =
      format.rounded ((numerator : ℚ) / denominator) := by
    have same := rounded_cast format nonneg
    rw [quotient, ← roundDiv_eq_roundEven _ (by positivity)] at same
    exact_mod_cast same.symm
  simp only [nearest, nearestTo, Nat.pow_eq, shift, count]

end ConfigStore.BinaryFormat
