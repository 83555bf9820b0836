import Mathlib.Algebra.Order.Floor.Semifield
import ConfigStore.Number.SixDigits
import ConfigStore.Proofs.Number.Leading
import ConfigStore.Proofs.Number.Positional
import ConfigStore.Proofs.Number.Rounding

/-! The text of a number to six significant digits is exact. Whichever notation is chosen, it is read as the number rounded to
six digits once, although the positional notation rounds again. -/

namespace ConfigStore

open Literal Utf8 GeneralStyle

/-- Digits and a power of ten that are a number rounded to six significant digits. -/
structure Rounded (exact : ℚ) (digits : ℕ) (power : ℤ) : Prop where
  /-- There are six of them. -/
  low : 10 ^ 5 ≤ digits
  /-- There are no more. -/
  high : digits < 10 ^ 6
  /-- They are the rounded number, the first of them in front of the point. -/
  value : digits * 10 ^ (power - 5) = toSignificant 6 exact
  /-- Rounding at the place of the last of them gives them once more. -/
  again : roundEven (exact / 10 ^ (power - 5)) = digits

/-- How a rounded number is written. -/
structure GeneralForm (rounded : ℚ) (text whole places exponent : List Char) : Prop where
  /-- A minus stands in front of what is below zero, and there is no point without places behind it. -/
  parts : text = minus (decide (rounded < 0)) ++ (whole ++ fractionText places) ++ exponent
  /-- The places do not end in a zero. -/
  proper : Places places
  /-- In the middle range there is no exponent, and the whole part is written in full. -/
  positional : -4 ≤ Int.log 10 |rounded| ∧ Int.log 10 |rounded| < 6 →
    exponent = [] ∧ whole = Nat.toDigits 10 ⌊|rounded|⌋₊
  /-- Otherwise one digit is in front of the point, and the exponent has a sign and two digits or more. -/
  raised : Int.log 10 |rounded| < -4 ∨ 6 ≤ Int.log 10 |rounded| →
    whole = Nat.toDigits 10 ⌊|rounded| / 10 ^ Int.log 10 |rounded|⌋₊ ∧
      ∃ digits, exponent = 'e' :: (if Int.log 10 |rounded| < 0 then '-' else '+') :: digits ∧ Digits digits ∧
        2 ≤ digits.length ∧ digitsValue digits = (Int.log 10 |rounded|).natAbs

/-- A text is read as a rounded number exactly, and has the form of one. -/
structure WrittenExactly (rounded : ℚ) (text : List Char) : Prop where
  /-- It is the text of a decimal that is the rounded number. -/
  denotes : ∃ read, ofText? text = some (.decimal read) ∧ read.value = rounded
  /-- It is written as such a number is. -/
  form : ∃ whole places exponent, GeneralForm rounded text whole places exponent

variable {exact : ℚ} {digits : ℕ} {power : ℤ}

/-- A coefficient of six digits or more lies between the powers of ten that its length tells. -/
theorem Decimal.length_bounds {number : Decimal} (large : 10 ^ 5 ≤ number.coefficient) :
    6 ≤ number.length ∧ 10 ^ (number.length - 1) ≤ number.coefficient ∧ number.coefficient < 10 ^ number.length := by
  have bound : ∀ {count}, 0 < count → (number.length ≤ count ↔ number.coefficient < 10 ^ count) :=
    Nat.length_toDigits_le_iff (by decide)
  -- No five digits come to so much, and one digit less does not come to the coefficient.
  have six : 6 ≤ number.length := by
    by_contra short
    exact absurd ((bound (by decide)).1 (by omega : number.length ≤ 5)) (by omega)
  refine ⟨six, ?_, (bound (by omega)).1 le_rfl⟩
  by_contra small
  have short := (bound (by omega : 0 < number.length - 1)).2 (by omega)
  omega

/-- A number of so many digits has the power of ten of its first digit. -/
theorem log_coefficient {coefficient shift : ℕ} (low : 10 ^ (shift + 5) ≤ coefficient)
    (high : coefficient < 10 ^ (shift + 6)) (exponent : ℤ) :
    Int.log 10 ((coefficient : ℚ) * 10 ^ exponent) = exponent + shift + 5 := by
  have ten : (0 : ℚ) < 10 ^ exponent := zpow_pos (by norm_num) exponent
  have base : (10 : ℚ) ≠ 0 := by norm_num
  have first : (10 : ℚ) ^ (shift + 5) ≤ coefficient := by exact_mod_cast low
  have next : (coefficient : ℚ) < 10 ^ (shift + 6) := by exact_mod_cast high
  have power : ∀ more : ℕ, (10 : ℚ) ^ (exponent + shift + more) = 10 ^ (shift + more) * 10 ^ exponent := by
    intro more
    rw [add_assoc, zpow_add₀ base, ← Nat.cast_add, zpow_natCast, mul_comm]
  refine log_ten_eq ?_ ?_
  · rw [show exponent + shift + 5 = exponent + shift + (5 : ℕ) by norm_num, power]
    exact mul_le_mul_of_nonneg_right first ten.le
  · rw [show exponent + shift + 5 + 1 = exponent + shift + (6 : ℕ) by push_cast; ring, power]
    exact mul_lt_mul_of_pos_right next ten

/-- Rounding it to six digits gives six, or a carry to the least number of seven. -/
theorem roundDiv_six {coefficient shift : ℕ} (low : 10 ^ (shift + 5) ≤ coefficient) (high : coefficient < 10 ^ (shift + 6)) :
    10 ^ 5 ≤ roundDiv coefficient (10 ^ shift) ∧ roundDiv coefficient (10 ^ shift) ≤ 10 ^ 6 := by
  obtain ⟨least, most⟩ := roundDiv_bounds coefficient (10 ^ shift)
  have above : 10 ^ 5 ≤ coefficient / 10 ^ shift := by
    rw [Nat.le_div_iff_mul_le (Nat.pow_pos (by decide)), ← Nat.pow_add, Nat.add_comm]
    exact low
  have below : coefficient / 10 ^ shift < 10 ^ 6 := by
    rw [Nat.div_lt_iff_lt_mul (Nat.pow_pos (by decide)), ← Nat.pow_add, Nat.add_comm]
    exact high
  omega

/-- A coefficient is rounded where the number is, whatever its power of ten. -/
theorem roundEven_coefficient (coefficient shift : ℕ) (exponent : ℤ) :
    roundEven ((coefficient : ℚ) * 10 ^ exponent / 10 ^ (exponent + shift)) = roundDiv coefficient (10 ^ shift) := by
  have place : (coefficient : ℚ) * 10 ^ exponent / 10 ^ (exponent + shift) = coefficient / (10 ^ shift : ℕ) := by
    rw [zpow_add₀ (by norm_num), zpow_natCast]
    push_cast
    field_simp
  rw [place, roundDiv_eq_roundEven _ (Nat.pow_pos (by decide))]

/-- So the rounded number is the rounded coefficient at the place of its last digit. -/
theorem toSignificant_coefficient {coefficient shift : ℕ} (low : 10 ^ (shift + 5) ≤ coefficient)
    (high : coefficient < 10 ^ (shift + 6)) (exponent : ℤ) :
    toSignificant 6 ((coefficient : ℚ) * 10 ^ exponent) = roundDiv coefficient (10 ^ shift) * 10 ^ (exponent + shift) := by
  have size : |(coefficient : ℚ) * 10 ^ exponent| = coefficient * 10 ^ exponent :=
    abs_of_nonneg (mul_nonneg (Nat.cast_nonneg _) (zpow_nonneg (by norm_num) _))
  have last : exponent + shift + 5 + 1 - (6 : ℕ) = exponent + shift := by
    push_cast
    ring
  rw [toSignificant, size, log_coefficient low high, last, roundEven_coefficient, Int.cast_natCast]

/-- The digits that are written first, where a carry moves the power of ten. -/
theorem significant_eq {number : Decimal} {shift : ℕ} (size : number.length = shift + 6) :
    sixDigits.significant number =
      if roundDiv number.coefficient (10 ^ shift) = 10 ^ 6 then (10 ^ 5, number.exponent + shift + 1 + 5)
      else (roundDiv number.coefficient (10 ^ shift), number.exponent + shift + 5) := by
  have power : number.exponent + (shift + 6 : ℕ) - 1 = number.exponent + shift + 5 := by
    push_cast
    ring
  have more : number.exponent + shift + 5 + 1 = number.exponent + shift + 1 + 5 := by ring
  simp only [significant, sixDigits, size, Nat.add_sub_cancel, Nat.pow_eq, power, more]

/-- The digits that are written first are the number rounded to six significant digits. -/
theorem rounded_significant {number : Decimal} (large : 10 ^ 5 ≤ number.coefficient) :
    Rounded (number.coefficient * 10 ^ number.exponent) (sixDigits.significant number).1
      (sixDigits.significant number).2 := by
  obtain ⟨six, low, high⟩ := Decimal.length_bounds large
  obtain ⟨shift, size⟩ : ∃ shift, number.length = shift + 6 := ⟨number.length - 6, by omega⟩
  rw [size] at low high
  obtain ⟨least, most⟩ := roundDiv_six low high
  have value := toSignificant_coefficient low high number.exponent
  have even := roundEven_coefficient number.coefficient shift number.exponent
  rw [significant_eq size]
  split
  · next carried =>
    -- The digits of the carry stand one place further in front.
    have step : (10 : ℚ) ^ (number.exponent + shift + 1) = 10 ^ (number.exponent + shift) * 10 :=
      zpow_add_one₀ (by norm_num) _
    refine ⟨by simp, by simp, ?_, ?_⟩
    · rw [value, carried, Int.add_sub_cancel, step]
      push_cast
      ring
    · rw [Int.add_sub_cancel, step, ← div_div]
      exact roundEven_carry (by rw [even, carried]; norm_num)
  · next whole =>
    refine ⟨least, by omega, ?_, ?_⟩
    · rw [value, Int.add_sub_cancel]
    · rw [Int.add_sub_cancel, even]

/-- The rounded number has its first digit at the power of ten that is told. -/
theorem Rounded.log (rounded : Rounded exact digits power) : Int.log 10 (toSignificant 6 exact) = power := by
  have base : (10 : ℚ) ≠ 0 := by norm_num
  have ten : (0 : ℚ) < 10 ^ (power - 5) := zpow_pos (by norm_num) _
  have low : (10 : ℚ) ^ 5 ≤ digits := by exact_mod_cast rounded.low
  have high : (digits : ℚ) < 10 ^ 6 := by exact_mod_cast rounded.high
  have first : (10 : ℚ) ^ power = 10 ^ 5 * 10 ^ (power - 5) := by
    rw [← zpow_natCast, ← zpow_add₀ base]
    norm_num
  have next : (10 : ℚ) ^ (power + 1) = 10 ^ 6 * 10 ^ (power - 5) := by
    rw [zpow_add_one₀ base, first]
    ring
  rw [← rounded.value]
  refine log_ten_eq ?_ ?_
  · rw [first]
    exact mul_le_mul_of_nonneg_right low ten.le
  · rw [next]
    exact mul_lt_mul_of_pos_right high ten

/-- The rounded number is positive. -/
theorem Rounded.pos (rounded : Rounded exact digits power) : 0 < toSignificant 6 exact := by
  have positive : (0 : ℚ) < digits := by exact_mod_cast (by have := rounded.low; omega : 0 < digits)
  rw [← rounded.value]
  exact mul_pos positive (zpow_pos (by norm_num) _)

/-- An exponent is written as a mark, a sign, and two digits or more. -/
theorem exists_exponentText (power : ℤ) :
    ∃ digits, sixDigits.exponentText power = 'e' :: (if power < 0 then '-' else '+') :: digits ∧ Digits digits ∧
      2 ≤ digits.length ∧ digitsValue digits = power.natAbs := by
  refine ⟨_, rfl, ?_, ?_, ?_⟩
  · intro char member
    rcases List.mem_append.1 member with zero | digit
    · rw [List.eq_of_mem_replicate zero]
      decide
    · exact digits_toDigits _ char digit
  · have width : sixDigits.exponentWidth = 2 := rfl
    rw [List.length_append, List.length_replicate, width]
    omega
  · rw [digitsValue, Nat.ofDigitChars_append, Nat.ofDigitChars_replicate_zero, Nat.mul_zero]
    exact digitsValue_toDigits _

/-- It is read as the power that was written. -/
theorem exponent?_exponentText (power : ℤ) :
    Power (sixDigits.exponentText power) ∧ exponent? (sixDigits.exponentText power) = some power := by
  obtain ⟨digits, text, plain, size, value⟩ := exists_exponentText power
  have filled : digits ≠ [] := by
    rintro rfl
    exact absurd size (by decide)
  have signed : IsSign [if power < 0 then '-' else '+'] := by
    split
    · exact .inr (.inr rfl)
    · exact .inr (.inl rfl)
  have parts : sixDigits.exponentText power = 'e' :: ([if power < 0 then '-' else '+'] ++ digits) := text
  rw [parts]
  refine ⟨.marked (by decide) signed plain filled, ?_⟩
  rw [exponent?_marked 'e' signed plain filled, signedValue, value]
  by_cases below : power < 0
  · rw [if_pos below, if_pos rfl]
    congr 1
    omega
  · rw [if_neg below, if_neg (by decide)]
    congr 1
    omega

/-- Rounding to the places that the first digit leaves gives the six digits again. -/
theorem toPlaces_eq {number : Decimal} {unit places : ℕ} (below : number.exponent = -unit)
    (rounded : Rounded (number.coefficient * 10 ^ number.exponent) digits power) (left : power = 5 - places) :
    toPlaces number places = ⟨number.negative, digits, -places⟩ := by
  have base : (10 : ℚ) ≠ 0 := by norm_num
  have last : power - 5 = -places := by omega
  -- The quotient that is rounded is the number at the place of its sixth digit.
  have ratio : (number.coefficient : ℚ) * 10 ^ number.exponent / 10 ^ (power - 5) =
      (number.coefficient * 10 ^ places : ℕ) / (10 ^ unit : ℕ) := by
    rw [below, last, zpow_neg, zpow_neg, zpow_natCast, zpow_natCast]
    push_cast
    field_simp
  have same := rounded.again
  rw [ratio, ← roundDiv_eq_roundEven _ (Nat.pow_pos (by decide)), Int.natCast_inj] at same
  rw [toPlaces, below, Int.natAbs_neg, Int.natAbs_natCast, Nat.pow_eq, Nat.pow_eq, same]

/-- A positive size with a sign is below zero just if the sign says so. -/
theorem unitSign_mul_neg (negative : Bool) {size : ℚ} (positive : 0 < size) :
    decide (unitSign negative * size < 0) = negative := by
  cases negative
  · simp [unitSign, positive.le]
  · simp [unitSign, positive]

/-- A sign does not count for a size. -/
theorem abs_unitSign (negative : Bool) : |unitSign negative| = 1 := by
  cases negative
  · exact abs_one
  · rw [unitSign, if_pos rfl, abs_neg, abs_one]

/-- A positive size with a sign has that size. -/
theorem abs_unitSign_mul (negative : Bool) {size : ℚ} (positive : 0 < size) : |unitSign negative * size| = size := by
  rw [abs_mul, abs_unitSign, one_mul, abs_of_pos positive]

/-- Rounding keeps the sign. -/
theorem toSignificant_unitSign (digits : ℕ) (negative : Bool) (exact : ℚ) :
    toSignificant digits (unitSign negative * exact) = unitSign negative * toSignificant digits exact := by
  cases negative
  · simp [unitSign]
  · simp [unitSign, toSignificant_neg]

/-- A whole part of a quotient is that of the exact quotient. -/
theorem floor_div_pow (digits places : ℕ) : ⌊(digits : ℚ) / 10 ^ places⌋₊ = digits / 10 ^ places := by
  have same := Nat.floor_div_eq_div (K := ℚ) digits (10 ^ places)
  push_cast at same
  exact same

/-- A very small or large number is its six digits and an exponent. -/
theorem decimalText_raised {number : Decimal} (spelled : sixDigits.significant number = (digits, power))
    (outside : power < -4 ∨ 6 ≤ power) :
    sixDigits.decimalText number =
      stripFraction (Decimal.positional ⟨number.negative, digits, -(5 : ℕ)⟩) ++ sixDigits.exponentText power := by
  have style : power < sixDigits.leastPositional ∨ (sixDigits.digits : ℤ) ≤ power := outside
  simp only [decimalText, spelled, if_pos style]
  rfl

/-- Any other number is its six digits with as many places as the first digit leaves. -/
theorem decimalText_positional {number : Decimal} {unit places : ℕ}
    (spelled : sixDigits.significant number = (digits, power)) (below : number.exponent = -unit)
    (rounded : Rounded (number.coefficient * 10 ^ number.exponent) digits power) (inside : -4 ≤ power ∧ power < 6)
    (left : power = 5 - places) :
    sixDigits.decimalText number = stripFraction (Decimal.positional ⟨number.negative, digits, -places⟩) := by
  have style : ¬(power < sixDigits.leastPositional ∨ (sixDigits.digits : ℤ) ≤ power) := by
    have outside : ¬(power < -4 ∨ 6 ≤ power) := by omega
    exact outside
  have count : ((sixDigits.digits : ℤ) - 1 - power).toNat = places := by
    have width : (sixDigits.digits : ℤ) = 6 := rfl
    omega
  simp only [decimalText, spelled, if_neg style, count, toPlaces_eq below rounded left]

/-- A rounded number has only one first digit and one run of digits. -/
theorem Rounded.unique {other : ℚ} {more : ℕ} {place : ℤ} (rounded : Rounded exact digits power)
    (also : Rounded other more place) (same : toSignificant 6 exact = toSignificant 6 other) :
    digits = more ∧ power = place := by
  obtain rfl : power = place := rounded.log.symm.trans ((congrArg (Int.log 10) same).trans also.log)
  have unit : (10 : ℚ) ^ (power - 5) ≠ 0 := zpow_ne_zero _ (by norm_num)
  have scaled := rounded.value.trans (same.trans also.value.symm)
  exact ⟨by exact_mod_cast mul_right_cancel₀ unit scaled, rfl⟩

/-- Numbers with one sign that are rounded to the same are written the same. -/
theorem decimalText_congr {number other : Decimal} {unit : ℕ} (below : number.exponent = -unit)
    (alike : other.exponent = -unit) (large : 10 ^ 5 ≤ number.coefficient) (also : 10 ^ 5 ≤ other.coefficient)
    (sign : number.negative = other.negative)
    (same : toSignificant 6 (number.coefficient * 10 ^ number.exponent) =
      toSignificant 6 (other.coefficient * 10 ^ other.exponent)) :
    sixDigits.decimalText number = sixDigits.decimalText other := by
  have rounded := rounded_significant large
  have second := rounded_significant also
  generalize spelled : sixDigits.significant number = parts at rounded
  generalize likewise : sixDigits.significant other = others at second
  obtain ⟨digits, power⟩ := parts
  obtain ⟨more, place⟩ := others
  obtain ⟨rfl, rfl⟩ := rounded.unique second same
  by_cases outside : power < -4 ∨ 6 ≤ power
  · rw [decimalText_raised spelled outside, decimalText_raised likewise outside, sign]
  · obtain ⟨count, left⟩ : ∃ count : ℕ, power = 5 - count := ⟨(5 - power).toNat, by omega⟩
    rw [decimalText_positional spelled below rounded (by omega) left,
      decimalText_positional likewise alike second (by omega) left, sign]

/-- Six digits and an exponent are exact, and have the form of a very small or large number. -/
theorem Rounded.exact_raised (rounded : Rounded exact digits power) (negative : Bool) (outside : power < -4 ∨ 6 ≤ power) :
    WrittenExactly (unitSign negative * toSignificant 6 exact)
      (stripFraction (Decimal.positional ⟨negative, digits, -(5 : ℕ)⟩) ++ sixDigits.exponentText power) := by
  -- One digit in front of the point leaves five behind it.
  obtain ⟨places, proper, text, reads⟩ := exists_written negative digits 5
  obtain ⟨raising, raised⟩ := exponent?_exponentText power
  obtain ⟨read, denotes, -, same⟩ := reads _ _ raising raised
  have sign := unitSign_mul_neg negative rounded.pos
  have size := abs_unitSign_mul negative rounded.pos
  have quotient : toSignificant 6 exact / 10 ^ power = digits / 10 ^ 5 := by
    have base : (10 : ℚ) ≠ 0 := by norm_num
    have split : (10 : ℚ) ^ (power - 5) = 10 ^ power / 10 ^ 5 := by
      rw [zpow_sub₀ base]
      norm_num
    have ten : (10 : ℚ) ^ power ≠ 0 := zpow_ne_zero _ base
    rw [← rounded.value, split]
    field_simp
  constructor
  · refine ⟨read, denotes, ?_⟩
    rw [same, Decimal.value, ← rounded.value]
    rfl
  · refine ⟨Nat.toDigits 10 (digits / 10 ^ 5), places, sixDigits.exponentText power, ?_, proper, ?_, ?_⟩
    · rw [text, sign]
    · rw [size, rounded.log]
      omega
    · rw [size, rounded.log, quotient, floor_div_pow]
      exact fun _ => ⟨rfl, exists_exponentText power⟩

/-- Six digits with as many places as the first of them leaves are exact, and have the form of any other number. -/
theorem Rounded.exact_positional {count : ℕ} (rounded : Rounded exact digits power) (negative : Bool)
    (inside : -4 ≤ power ∧ power < 6) (left : power = 5 - count) :
    WrittenExactly (unitSign negative * toSignificant 6 exact)
      (stripFraction (Decimal.positional ⟨negative, digits, -count⟩)) := by
  obtain ⟨places, proper, text, reads⟩ := exists_written negative digits count
  obtain ⟨read, denotes, -, same⟩ := reads [] 0 .none rfl
  have sign := unitSign_mul_neg negative rounded.pos
  have size := abs_unitSign_mul negative rounded.pos
  have last : power - 5 = -count := by omega
  have value := rounded.value
  rw [last] at value
  have quotient : toSignificant 6 exact = digits / 10 ^ count := by
    rw [← value, zpow_neg, zpow_natCast, div_eq_mul_inv]
  rw [List.append_nil] at denotes
  constructor
  · refine ⟨read, denotes, ?_⟩
    rw [same, Decimal.value, ← value, zero_sub]
  · refine ⟨Nat.toDigits 10 (digits / 10 ^ count), places, [], ?_, proper, ?_, ?_⟩
    · rw [text, sign, List.append_nil]
    · rw [size, rounded.log, quotient, floor_div_pow]
      exact fun _ => ⟨rfl, rfl⟩
    · rw [size, rounded.log]
      omega

/-- The text of a decimal is the number rounded to six significant digits, in the form that its power of ten asks for. -/
theorem decimalText_exact {number : Decimal} {unit : ℕ} (below : number.exponent = -unit)
    (large : 10 ^ 5 ≤ number.coefficient) :
    WrittenExactly (toSignificant 6 number.value) (sixDigits.decimalText number) := by
  have rounded := rounded_significant large
  generalize spelled : sixDigits.significant number = parts at rounded
  obtain ⟨digits, power⟩ := parts
  rw [Decimal.value, toSignificant_unitSign]
  -- The power of ten after rounding tells the notation.
  by_cases outside : power < -4 ∨ 6 ≤ power
  · rw [decimalText_raised spelled outside]
    exact rounded.exact_raised number.negative outside
  · obtain ⟨count, left⟩ : ∃ count : ℕ, power = 5 - count := ⟨(5 - power).toNat, by omega⟩
    rw [decimalText_positional spelled below rounded (by omega) left]
    exact rounded.exact_positional number.negative (by omega) left

/-- A unit that is small enough makes every number that is not zero a coefficient of six digits or more. -/
theorem ten_pow_five_le_coefficient {format : BinaryFormat} {magnitude : ℕ} (negative : Bool) (nonzero : magnitude ≠ 0)
    (small : 8 ≤ format.unitExponent) : 10 ^ 5 ≤ (Decimal.ofMagnitude format negative magnitude).coefficient := by
  have units := format.units_pos (Nat.pos_of_ne_zero nonzero)
  have fives : 5 ^ 8 ≤ 5 ^ format.unitExponent := Nat.pow_le_pow_right (by decide) small
  calc 10 ^ 5 ≤ 1 * 5 ^ 8 := by norm_num
    _ ≤ format.units magnitude * 5 ^ format.unitExponent := Nat.mul_le_mul units fives

/-- Writing a number to six significant digits is exact in both notations. The text of a finite number that is not zero is a
number's text to its end. It denotes the number rounded to six significant digits, a half going to the even digit. It has an
exponent, with a sign and two digits or more, just if the power of ten of the rounded number is below minus four or at
least six. No zero ends its fraction, no point stands alone, and its whole part is written in full. -/
theorem generalText_exact (number : Binary .double) (exact : ℚ) (finite : number.value? = some exact) (filled : exact ≠ 0) :
    leadingLength (encodeChars (generalText number).toList) = (encodeChars (generalText number).toList).length ∧
      WrittenExactly (toSignificant 6 exact) (generalText number).toList := by
  -- Only a finite number has an exact value.
  obtain ⟨negative, magnitude, bounded⟩ | negative | _ := number
  · obtain rfl := Option.some.inj finite
    have nonzero : magnitude ≠ 0 := by
      rintro rfl
      simp [BinaryFormat.units] at filled
    have large := ten_pow_five_le_coefficient negative nonzero (by decide : 8 ≤ BinaryFormat.double.unitExponent)
    have below : (Decimal.ofMagnitude .double negative magnitude).exponent = -(BinaryFormat.double.unitExponent : ℕ) := rfl
    have written := decimalText_exact below large
    rw [Decimal.value_ofMagnitude] at written
    rw [generalText, if_neg nonzero, String.toList_ofList]
    refine ⟨?_, written⟩
    obtain ⟨read, denotes, -⟩ := written.denotes
    exact ((isSome_ofText?_iff _).1 (Option.isSome_of_mem denotes)).longest_self.leadingLength_eq
  · cases finite
  · cases finite

/-- Half of one below a million is carried into a seventh digit, and so is written with an exponent. -/
theorem generalText_exact_carried :
    Binary.value? (.finite false 4696837142389719040 (by decide) : Binary .double) = some (1999999 / 2) ∧
      generalText (.finite false 4696837142389719040 (by decide) : Binary .double) = "1e+06" ∧
      WrittenExactly (toSignificant 6 (1999999 / 2)) "1e+06".toList := by
  have units : BinaryFormat.double.units 4696837142389719040 = 1999999 * 2 ^ 1073 := by decide +kernel
  have finite : Binary.value? (.finite false 4696837142389719040 (by decide) : Binary .double) = some (1999999 / 2) := by
    have unit : BinaryFormat.double.unitExponent = 1073 + 1 := by decide
    have half : ∀ halvings : ℕ, (1999999 * 2 ^ halvings : ℕ) / (2 : ℚ) ^ (halvings + 1) = 1999999 / 2 := by
      intro halvings
      rw [pow_succ]
      push_cast
      field_simp
    rw [Binary.value?, units, unit, half, unitSign, if_neg (by decide), one_mul]
  have text : generalText (.finite false 4696837142389719040 (by decide) : Binary .double) = "1e+06" := by decide +kernel
  have written := (generalText_exact _ _ finite (by norm_num)).2
  rw [text] at written
  exact ⟨finite, text, written⟩

end ConfigStore
