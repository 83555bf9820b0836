import Mathlib.Algebra.Order.Field.Rat
import Mathlib.Tactic.FieldSimp
import Mathlib.Tactic.NormNum
import Mathlib.Tactic.Ring
import ConfigStore.Number.Decimal

/-! The exact numbers that decimal and binary numbers stand for. Every finite binary number is some decimal. -/

namespace ConfigStore

/-- One, or minus one for what is below zero. -/
def unitSign (negative : Bool) : ℚ :=
  if negative then -1 else 1

/-- The number that a coefficient and a power of ten make. -/
def Decimal.value (number : Decimal) : ℚ :=
  unitSign number.negative * (number.coefficient * 10 ^ number.exponent)

/-- The number that a finite binary number is. -/
def Binary.value? {format : BinaryFormat} : Binary format → Option ℚ
  | .finite negative magnitude _ => some (unitSign negative * (format.units magnitude / 2 ^ format.unitExponent))
  | .infinite _ => none
  | .notANumber => none

/-- Only zero is no units. -/
theorem BinaryFormat.units_pos (format : BinaryFormat) {magnitude : ℕ} (positive : 0 < magnitude) :
    0 < format.units magnitude := by
  have parts := Nat.div_add_mod magnitude (2 ^ format.fractionBits)
  have one : 0 < 2 ^ format.fractionBits := Nat.two_pow_pos _
  simp only [BinaryFormat.units, Nat.pow_eq]
  split
  · next zero =>
    rw [zero, Nat.mul_zero, Nat.zero_add] at parts
    omega
  · exact Nat.mul_pos (by omega) (Nat.two_pow_pos _)

/-- The decimal of a binary number is the same number. -/
theorem Decimal.value_ofMagnitude (format : BinaryFormat) (negative : Bool) (magnitude : ℕ) :
    (Decimal.ofMagnitude format negative magnitude).value =
      unitSign negative * (format.units magnitude / 2 ^ format.unitExponent) := by
  -- Two times five is ten, as often as there are halvings.
  have ten : (10 : ℚ) ^ format.unitExponent = 2 ^ format.unitExponent * 5 ^ format.unitExponent := by
    rw [← mul_pow]
    norm_num
  simp only [Decimal.value, Decimal.ofMagnitude, Nat.pow_eq, zpow_neg, zpow_natCast, ten]
  push_cast
  field_simp

end ConfigStore
