import ConfigStore.Proofs.Backend.Sharing
import ConfigStore.Proofs.Number.Leading
import ConfigStore.Proofs.Number.Precision
import ConfigStore.Proofs.Number.Significant
import ConfigStore.Proofs.Number.SixDigits

/-! A number of 32 bits that is stored to six significant digits settles after one round: what is read is written as the same
text, and is near the number. Six digits are read through a number of 64 bits, and rounded twice on the way. -/

namespace ConfigStore

open BinaryFormat Literal GeneralStyle

variable {exact close near size : ℚ} {digits magnitude : ℕ} {power : ℤ} {negative : Bool}

/-- The power of ten below which the least number of 32 bits is more than one of six digits. -/
def coarse : ℚ :=
  10 ^ (-39 : ℤ)

/-- Below the coarse power of ten, rounding to six digits and reading them as a number of 64 bits leaves a number nearer than
half of the least one of 32 bits. -/
theorem near_of_coarse (low : 1 / 2 ^ 149 ≤ exact) (small : exact < coarse)
    (reading : |close - toSignificant 6 exact| ≤ toSignificant 6 exact / 2 ^ 53) : |close - exact| < 1 / 2 ^ 150 := by
  obtain ⟨power, first, next⟩ := exists_power (lt_of_lt_of_le (by positivity) low)
  have rounding := abs_le.1 (toSignificant_near first next)
  -- The last digit counts less than three quarters of the least number.
  have last : (10 : ℚ) ^ (power - 5) ≤ 10 ^ (-45 : ℤ) := by
    have powers : (10 : ℚ) ^ power < 10 ^ (-39 : ℤ) := lt_of_le_of_lt first small
    have exponents := (zpow_lt_zpow_iff_right₀ (by norm_num : (1 : ℚ) < 10)).1 powers
    exact zpow_le_zpow_right₀ (by norm_num) (by omega)
  have reads := abs_le.1 reading
  rw [coarse] at small
  norm_num at last small reads ⊢
  rw [abs_lt]
  constructor <;> linarith

/-- What six digits from the coarse power of ten on are read as: a whole count of the least number of 32 bits, off by what
two roundings can make. -/
structure ReadAs (rounded near : ℚ) : Prop where
  /-- It is no smaller than the coarse power of ten. -/
  fine : coarse ≤ rounded
  /-- It is a count of the least number. -/
  count : ∃ units : ℕ, near = units / 2 ^ 149
  /-- A number of 64 bits is between the two. -/
  reading : ∃ close, |close - rounded| ≤ rounded / 2 ^ 53 ∧ |near - close| ≤ max (1 / 2 ^ 149) (close / 2 ^ 23) / 2

/-- From twice the coarse power of ten on, the two roundings are off by less than half a millionth. -/
theorem ReadAs.near_of_fine {rounded : ℚ} (read : ReadAs rounded near) (fine : 2 * coarse ≤ rounded) :
    |near - rounded| < rounded / 2000000 := by
  -- The number of 64 bits is off by a little, and that of 32 bits by its significand or half of the least number.
  obtain ⟨close, first, second⟩ := read.reading
  have wide : max (1 / 2 ^ 149) (close / 2 ^ 23) / 2 < rounded * (36 / 10 ^ 8) := by
    have once := (abs_le.1 first).2
    rw [coarse] at fine
    rw [div_lt_iff₀ two_pos]
    refine max_lt ?_ ?_
    · norm_num at fine ⊢
      linarith
    · norm_num at fine once ⊢
      linarith
  have once := abs_le.1 first
  have twice := abs_le.1 second
  have positive : 0 < rounded := by
    rw [coarse] at fine
    exact lt_of_lt_of_le (by positivity) fine
  rw [abs_lt]
  norm_num at once wide ⊢
  constructor <;> linarith

/-- Below that they are off by little more than half of the least number. -/
theorem ReadAs.near_of_coarser {rounded : ℚ} (read : ReadAs rounded near) (coarser : rounded < 2 * coarse) :
    |near - rounded| < 8 / 10 ^ 46 := by
  -- The spacing is that of the least number here.
  obtain ⟨close, first, second⟩ := read.reading
  have once := abs_le.1 first
  rw [coarse] at coarser
  have wide : close / 2 ^ 23 ≤ 1 / 2 ^ 149 := by
    norm_num at coarser once ⊢
    linarith
  rw [max_eq_left wide] at second
  have twice := abs_le.1 second
  rw [abs_lt]
  norm_num at coarser once twice ⊢
  constructor <;> linarith

/-- Nothing is read as a number below the coarse power of ten. -/
theorem ReadAs.coarse_le {rounded : ℚ} (read : ReadAs rounded near) : coarse ≤ near := by
  have fine := read.fine
  by_contra below
  rw [not_le] at below
  obtain ⟨units, same⟩ := read.count
  by_cases coarser : rounded < 2 * coarse
  · -- The greatest count below it is too far away.
    have few : units < 713624 := by
      by_contra more
      have cast : (713624 : ℚ) ≤ units := by exact_mod_cast not_lt.1 more
      rw [same, coarse] at below
      norm_num at below
      linarith
    have cast : (units : ℚ) ≤ 713623 := by exact_mod_cast Nat.lt_succ_iff.1 few
    have side := (abs_lt.1 (read.near_of_coarser coarser)).1
    rw [coarse] at fine
    rw [same] at side
    norm_num at fine side
    linarith
  · have side := (abs_lt.1 (read.near_of_fine (not_lt.1 coarser))).1
    linarith

/-- What six digits are read as is rounded to them again, if the coarse power of ten is not above them. -/
theorem ReadAs.settles (low : 10 ^ 5 ≤ digits) (high : digits < 10 ^ 6) (read : ReadAs (digits * 10 ^ (power - 5)) near) :
    toSignificant 6 near = digits * 10 ^ (power - 5) := by
  by_cases coarser : (digits : ℚ) * 10 ^ (power - 5) < 2 * coarse
  · -- The first digit stands at the coarse power of ten, and nothing below that is read.
    have least : (10 : ℚ) ^ power ≤ digits * 10 ^ (power - 5) := by
      rw [ten_zpow_eq]
      exact mul_le_mul_of_nonneg_right (by exact_mod_cast low) (zpow_nonneg (by norm_num) _)
    have most : (digits : ℚ) * 10 ^ (power - 5) < 10 ^ (power + 1) :=
      lt_ten_zpow_succ high (by linarith [zpow_pos (by norm_num : (0 : ℚ) < 10) (power - 5)])
    have fine := read.fine
    obtain rfl : power = -39 := by
      have below : (10 : ℚ) ^ power < 10 ^ (-38 : ℤ) := by
        rw [coarse] at coarser
        norm_num at coarser ⊢
        linarith
      have above : (10 : ℚ) ^ (-39 : ℤ) < 10 ^ (power + 1) := lt_of_le_of_lt fine most
      have first := (zpow_lt_zpow_iff_right₀ (by norm_num : (1 : ℚ) < 10)).1 below
      have next := (zpow_lt_zpow_iff_right₀ (by norm_num : (1 : ℚ) < 10)).1 above
      omega
    refine toSignificant_of_above high read.coarse_le (lt_of_lt_of_le (read.near_of_coarser coarser) ?_)
    norm_num
  · exact toSignificant_of_near low high (read.near_of_fine (not_lt.1 coarser))

/-- What a number from the coarse power of ten on is read as is near it. -/
theorem ReadAs.near_exact (fine : coarse ≤ exact) (read : ReadAs (toSignificant 6 exact) near) :
    |near - exact| ≤ exact / 100000 := by
  -- Rounding to six digits is off by half of the last, and reading them by less than that.
  obtain ⟨power, first, next⟩ := exists_power (lt_of_lt_of_le (by rw [coarse]; positivity) fine)
  have rounding := abs_le.1 (toSignificant_near first next)
  have last : (10 : ℚ) ^ (power - 5) ≤ exact / 100000 := by
    rw [ten_zpow_eq] at first
    linarith
  rw [abs_le]
  by_cases coarser : toSignificant 6 exact < 2 * coarse
  · have reading := abs_lt.1 (read.near_of_coarser coarser)
    rw [coarse] at fine
    norm_num at fine reading
    constructor <;> linarith
  · have reading := abs_lt.1 (read.near_of_fine (not_lt.1 coarser))
    constructor <;> linarith

/-- From the coarse power of ten on, a number is rounded to no less than that. -/
theorem coarse_le_toSignificant (fine : coarse ≤ exact) : coarse ≤ toSignificant 6 exact := by
  obtain ⟨power, first, next⟩ := exists_power (lt_of_lt_of_le (by rw [coarse]; positivity) fine)
  have exponents := (zpow_lt_zpow_iff_right₀ (by norm_num : (1 : ℚ) < 10)).1 (lt_of_le_of_lt fine next)
  exact le_trans (zpow_le_zpow_right₀ (by norm_num) (by omega)) (le_toSignificant first next)

/-- No number of 32 bits is rounded past the greatest one. -/
theorem toSignificant_le_of_single (positive : 0 < exact) (bounded : exact ≤ greatestSingle) :
    toSignificant 6 exact ≤ 340282 * 10 ^ 33 := by
  obtain ⟨power, first, next⟩ := exists_power positive
  rcases lt_or_ge power 38 with less | more
  · -- With fewer digits it is at most the next power of ten.
    have below : exact ≤ ((10 ^ 6 : ℤ) : ℚ) * 10 ^ (power - 5) := by
      rw [ten_zpow_succ, ten_zpow_eq] at next
      push_cast
      linarith
    have powers : (10 : ℚ) ^ (power - 5) ≤ 10 ^ (32 : ℤ) := zpow_le_zpow_right₀ (by norm_num) (by omega)
    have rounded := toSignificant_le first next below
    push_cast at rounded
    norm_num at powers rounded ⊢
    linarith
  · -- With as many digits its sixth is not rounded up.
    obtain rfl : power = 38 := by
      have powers : (10 : ℚ) ^ power < 10 ^ (39 : ℤ) := by
        rw [greatestSingle] at bounded
        norm_num at bounded ⊢
        linarith
      have exponents := (zpow_lt_zpow_iff_right₀ (by norm_num : (1 : ℚ) < 10)).1 powers
      omega
    have near := (abs_le.1 (toSignificant_near first next)).2
    rw [toSignificant_eq first next] at near ⊢
    rw [greatestSingle] at bounded
    have count : ((roundEven (exact / 10 ^ ((38 : ℤ) - 5)) : ℤ) : ℚ) < (340283 : ℤ) := by
      norm_num at near bounded ⊢
      linarith
    have whole : ((roundEven (exact / 10 ^ ((38 : ℤ) - 5)) : ℤ) : ℚ) ≤ (340282 : ℤ) := by
      have less : roundEven (exact / 10 ^ ((38 : ℤ) - 5)) < 340283 := by exact_mod_cast count
      exact_mod_cast Int.lt_add_one_iff.1 less
    norm_num at whole ⊢
    linarith

/-- The size of a finite number of 32 bits that is not zero is in the range of those. -/
theorem size_single_pos (filled : magnitude ≠ 0) : 0 < single.size magnitude :=
  lt_of_lt_of_le (by positivity) (le_size_single filled)

/-- A number of 32 bits is stored as the six digits of a decimal that is the number exactly. -/
theorem exists_stored (negative : Bool) (bounded : magnitude < single.infinity) (filled : magnitude ≠ 0) :
    ∃ number : Decimal, number.negative = negative ∧ number.exponent = -(double.unitExponent : ℕ) ∧
      10 ^ 5 ≤ number.coefficient ∧ number.size = single.size magnitude ∧
      (Value.ofSingle (.finite negative magnitude bounded)).text.toList = sixDigits.decimalText number := by
  -- The number of 64 bits that is written is the number of 32 bits exactly.
  obtain ⟨wide, within, converted, same⟩ := convert_single negative bounded
  have nonzero : wide ≠ 0 := by
    rintro rfl
    have positive := size_single_pos filled
    rw [← same] at positive
    simp [BinaryFormat.size, units] at positive
  have large : 10 ^ 5 ≤ (Decimal.ofMagnitude double negative wide).coefficient :=
    ten_pow_five_le_coefficient negative nonzero (by decide)
  have size := Decimal.size_ofMagnitude double negative wide
  have text : (generalText (Binary.finite negative wide within)).toList =
      sixDigits.decimalText (.ofMagnitude double negative wide) := by
    rw [generalText, if_neg nonzero, String.toList_ofList]
  have below : (Decimal.ofMagnitude double negative wide).exponent = -(double.unitExponent : ℕ) := rfl
  have sign : (Decimal.ofMagnitude double negative wide).negative = negative := rfl
  refine ⟨.ofMagnitude double negative wide, sign, below, large, size.trans same, ?_⟩
  rw [Value.ofSingle, converted]
  exact text

/-- Numbers of 32 bits with one sign that are rounded to the same six digits are stored as the same value. -/
theorem ofSingle_congr {other : ℕ} (bounded : magnitude < single.infinity) (within : other < single.infinity)
    (filled : magnitude ≠ 0) (nonzero : other ≠ 0)
    (same : toSignificant 6 (single.size magnitude) = toSignificant 6 (single.size other)) :
    Value.ofSingle (.finite negative magnitude bounded) = Value.ofSingle (.finite negative other within) := by
  -- The text is told by the sign and the six digits.
  obtain ⟨number, sign, below, large, size, text⟩ := exists_stored negative bounded filled
  obtain ⟨second, also, alike, larger, length, written⟩ := exists_stored negative within nonzero
  rw [← size, ← length] at same
  have equal := decimalText_congr below alike large larger (sign.trans also.symm) same
  rw [← text, ← written, String.toList_inj] at equal
  exact congrArg Value.mk equal

/-- A decimal with the value of a signed positive size has that sign and that size. -/
theorem sign_and_size {number : Decimal} (positive : 0 < size) (value : number.value = unitSign negative * size) :
    number.negative = negative ∧ number.size = size := by
  -- The size is positive, so it is the absolute value, and the sign tells which side of zero it is on.
  have sign := unitSign_mul_neg negative positive
  have nonneg : 0 ≤ number.size := mul_nonneg (Nat.cast_nonneg _) (zpow_nonneg (by norm_num) _)
  have magnitude := abs_unitSign_mul negative positive
  rw [← value, Decimal.value_eq] at sign magnitude
  have positive : 0 < number.size := by
    refine lt_of_le_of_ne nonneg fun zero => ?_
    rw [← zero, mul_zero, abs_zero] at magnitude
    exact positive.ne magnitude
  exact ⟨(unitSign_mul_neg number.negative positive).symm.trans sign,
    (abs_unitSign_mul number.negative positive).symm.trans magnitude⟩

/-- A stored number of 32 bits is read as the number of 64 bits nearest to its six digits. -/
theorem toDouble_ofSingle (negative : Bool) (bounded : magnitude < single.infinity) (filled : magnitude ≠ 0) :
    (Value.ofSingle (.finite negative magnitude bounded)).toDouble =
      .ofSize double negative (toSignificant 6 (single.size magnitude)) := by
  -- The text denotes a decimal whose value is the six digits, and that is read as the nearest number.
  obtain ⟨number, sign, below, large, size, text⟩ := exists_stored negative bounded filled
  obtain ⟨⟨read, denotes, value⟩, -⟩ := decimalText_exact below large
  have positive : 0 < toSignificant 6 number.size := (rounded_significant large).pos
  rw [number.value_eq, toSignificant_unitSign] at value
  obtain ⟨signed, sized⟩ := sign_and_size positive value
  rw [Value.toDouble, text, leadingDouble_of_ofText? denotes, Literal.toBinary, Decimal.toBinary_eq, signed, sized, sign, size]

/-- What a number of 32 bits may be read as once it was stored. -/
inductive Settles : Binary .single → Binary .single → Prop
  /-- It is read as itself. -/
  | itself (number : Binary .single) : Settles number number
  /-- A finite number that is not zero is read as another one near it that is rounded to the same six digits. -/
  | beside {negative : Bool} {magnitude again : ℕ} {bounded : magnitude < single.infinity} {within : again < single.infinity}
      (filled : magnitude ≠ 0) (nonzero : again ≠ 0)
      (same : toSignificant 6 (single.size magnitude) = toSignificant 6 (single.size again))
      (near : |single.size again - single.size magnitude| ≤ single.size magnitude / 100000) :
      Settles (.finite negative magnitude bounded) (.finite negative again within)

/-- A finite number that is not zero is read so. -/
theorem settles_of_filled (negative : Bool) (bounded : magnitude < single.infinity) (filled : magnitude ≠ 0) :
    Settles (.finite negative magnitude bounded) (Value.ofSingle (.finite negative magnitude bounded)).toSingle := by
  have positive := size_single_pos filled
  have least := le_size_single filled
  have most := toSignificant_le_of_single positive (size_le_greatestSingle bounded)
  -- The six digits are in the range of 32 bits, and are read as a number of 64 bits there.
  have low : 1 / 2 ^ 200 ≤ toSignificant 6 (single.size magnitude) := by
    obtain ⟨power, first, next⟩ := exists_power positive
    have rounded := le_toSignificant first next
    rw [ten_zpow_succ] at next
    norm_num at least ⊢
    linarith
  have high : toSignificant 6 (single.size magnitude) ≤ 2 ^ 128 := most.trans (by norm_num)
  obtain ⟨wide, inside, read, reading⟩ := ofSize_double negative low high
  rw [Value.toSingle, toDouble_ofSingle negative bounded filled, read, Binary.convert_finite]
  by_cases small : single.size magnitude < coarse
  · -- The least number of 32 bits is more than a sixth digit here, so the number itself is the nearest.
    have tiny : single.size magnitude < 1 / 2 ^ 126 := by
      rw [coarse] at small
      norm_num at small ⊢
      linarith
    rw [ofSize_single_of_near negative bounded tiny (near_of_coarse least small reading)]
    exact .itself _
  · have fine := not_lt.1 small
    have bounds := abs_le.1 reading
    have nonneg : 0 ≤ double.size wide := by
      rw [BinaryFormat.size]
      positivity
    have within : double.size wide ≤ greatestSingle := by
      rw [greatestSingle]
      norm_num at bounds most ⊢
      linarith
    obtain ⟨again, finite, same, near⟩ := ofSize_single negative nonneg within
    have count : single.size again = (single.units again : ℕ) / 2 ^ 149 := by rw [BinaryFormat.size, unitExponent_single]
    have readAs : ReadAs (toSignificant 6 (single.size magnitude)) (single.size again) :=
      ⟨coarse_le_toSignificant fine, ⟨_, count⟩, _, reading, near⟩
    have nonzero : again ≠ 0 := by
      rintro rfl
      have above := readAs.coarse_le
      rw [coarse, count] at above
      norm_num [units] at above
    have settled : toSignificant 6 (single.size again) = toSignificant 6 (single.size magnitude) := by
      obtain ⟨number, -, -, large, size, -⟩ := exists_stored negative bounded filled
      have rounded := rounded_significant large
      have value : _ = toSignificant 6 number.size := rounded.value
      rw [size] at value
      rw [← value] at readAs ⊢
      exact readAs.settles rounded.low rounded.high
    rw [same]
    exact .beside filled nonzero settled.symm (readAs.near_exact fine)

/-- A zero is read with its sign. -/
theorem toSingle_ofSingle_zero (negative : Bool) (bounded : 0 < single.infinity) :
    (Value.ofSingle (.finite negative 0 bounded)).toSingle = .finite negative 0 bounded := by
  have positive : (Value.ofSingle (.finite false 0 (by decide))).toSingle = .finite false 0 (by decide) := by decide +kernel
  have negated : (Value.ofSingle (.finite true 0 (by decide))).toSingle = .finite true 0 (by decide) := by decide +kernel
  cases negative
  · exact positive
  · exact negated

/-- An infinite number is read with its sign. -/
theorem toSingle_ofSingle_infinite (negative : Bool) :
    (Value.ofSingle (.infinite negative)).toSingle = .infinite negative := by
  cases negative <;> decide +kernel

/-- What is not a number is read as that. -/
theorem toSingle_ofSingle_notANumber : (Value.ofSingle .notANumber).toSingle = .notANumber := by
  decide +kernel

/-- Every number is read so. -/
theorem settles_toSingle_ofSingle (number : Binary .single) : Settles number (Value.ofSingle number).toSingle := by
  obtain ⟨negative, magnitude, bounded⟩ | negative | _ := number
  · by_cases filled : magnitude = 0
    · subst filled
      rw [toSingle_ofSingle_zero]
      exact .itself _
    · exact settles_of_filled negative bounded filled
  · rw [toSingle_ofSingle_infinite]
    exact .itself _
  · rw [toSingle_ofSingle_notANumber]
    exact .itself _

namespace Settles

variable {number read : Binary .single}

/-- What is read is stored as the same value. -/
theorem ofSingle_eq (settles : Settles number read) : Value.ofSingle read = Value.ofSingle number := by
  cases settles with
  | itself => rfl
  | beside filled some same _ => exact (ofSingle_congr _ _ filled some same).symm

/-- It is infinite just when the number is, with the same sign. -/
theorem infinite_iff (settles : Settles number read) : read = .infinite negative ↔ number = .infinite negative := by
  cases settles with
  | itself => exact Iff.rfl
  | beside => exact iff_of_false nofun nofun

/-- It is a zero just when the number is, with the same sign. -/
theorem zero_iff (settles : Settles number read) (zero : 0 < single.infinity) :
    read = .finite negative 0 zero ↔ number = .finite negative 0 zero := by
  cases settles with
  | itself => exact Iff.rfl
  | beside filled nonzero _ _ => simp [filled, nonzero]

/-- It is finite when the number is, and near it. -/
theorem near_value (settles : Settles number read) (finite : number.value? = some exact) :
    ∃ close, read.value? = some close ∧ |close - exact| ≤ |exact| / 100000 := by
  cases settles with
  | itself =>
    refine ⟨exact, finite, ?_⟩
    rw [sub_self, abs_zero]
    positivity
  | @beside negative magnitude again _ _ filled _ _ near =>
    have value : unitSign negative * single.size magnitude = exact := Option.some_inj.1 finite
    refine ⟨unitSign negative * single.size again, rfl, ?_⟩
    rw [← value, ← mul_sub, abs_mul, abs_mul, abs_unitSign, one_mul, one_mul, abs_of_pos (size_single_pos filled)]
    exact near

end Settles

/-- A number of 32 bits settles after it was stored once, with six significant digits. What is read of it is stored as the
same value, so a key that has the value can be given that: the backend stays as it was, with no change to put back, and
nothing is reported. What is read is infinite or zero just when the number is, with the same sign, and that of a finite number
is off by a hundred thousandth of it at most, however small it is. -/
theorem Value.ofSingle_settles (number : Binary .single) :
    ofSingle (ofSingle number).toSingle = ofSingle number ∧
    (∀ (backend : Backend) (name key : String), backend.getValue name key = .ok (ofSingle number) →
      backend.check .set = .ok () → backend.setValue name key (ofSingle (ofSingle number).toSingle) = pure backend) ∧
    (∀ negative, (ofSingle number).toSingle = .infinite negative ↔ number = .infinite negative) ∧
    (∀ negative zero, (ofSingle number).toSingle = .finite negative 0 zero ↔ number = .finite negative 0 zero) ∧
    ∀ exact, number.value? = some exact →
      ∃ read, (ofSingle number).toSingle.value? = some read ∧ |read - exact| ≤ |exact| / 100000 := by
  have settles := settles_toSingle_ofSingle number
  refine ⟨settles.ofSingle_eq, fun backend name key stored able => ?_, fun _ => settles.infinite_iff,
    fun _ zero => settles.zero_iff zero, fun _ finite => settles.near_value finite⟩
  -- The text that is set is the one that was stored.
  rw [Backend.setValue, settles.ofSingle_eq]
  exact Backend.setText_of_getText able (Backend.getText_of_getValue stored)

/-- A number below the least one with all digits is read as the one before it, which is stored as the same text. -/
theorem Value.ofSingle_settles_subnormal :
    ofSingle (.finite false 713625 (by decide)) = ⟨"1e-39"⟩ ∧
    (ofSingle (.finite false 713625 (by decide))).toSingle = .finite false 713624 (by decide) ∧
    Backend.setValue (.memory 0 "audio" ⟨⟨[⟨"output", [⟨"gain", "1e-39"⟩]⟩]⟩, false⟩) "output" "gain"
        (ofSingle (ofSingle (.finite false 713625 (by decide))).toSingle) =
      pure (.memory 0 "audio" ⟨⟨[⟨"output", [⟨"gain", "1e-39"⟩]⟩]⟩, false⟩) ∧
    |(713624 / 2 ^ 149 - 713625 / 2 ^ 149 : ℚ)| ≤ |713625 / 2 ^ 149| / 100000 := by
  have stored : ofSingle (.finite false 713625 (by decide)) = ⟨"1e-39"⟩ := by decide +kernel
  have read : (ofSingle (.finite false 713625 (by decide))).toSingle = .finite false 713624 (by decide) := by decide +kernel
  have exact : Binary.value? (.finite false 713625 (by decide) : Binary .single) = some (713625 / 2 ^ 149) := by decide +kernel
  have again : Binary.value? (.finite false 713624 (by decide) : Binary .single) = some (713624 / 2 ^ 149) := by decide +kernel
  obtain ⟨-, unchanged, -, -, near⟩ := ofSingle_settles (.finite false 713625 (by decide))
  refine ⟨stored, read, unchanged _ "output" "gain" ?_ rfl, ?_⟩
  · rw [stored]
    rfl
  · obtain ⟨other, same, close⟩ := near _ exact
    rw [read, again, Option.some_inj] at same
    rw [same]
    exact close

end ConfigStore
