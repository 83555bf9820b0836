import ConfigStore.Number.Decimal

/-! The decimal text of a binary number to six significant digits, in positional notation unless the number
is very small or large. -/

namespace ConfigStore

/-- How a number is written to a fixed count of significant digits. -/
structure GeneralStyle where
  /-- How many significant digits are written at most. -/
  digits : Nat
  /-- The least decimal exponent that is written positionally. -/
  leastPositional : Int
  /-- How many digits an exponent has at least. -/
  exponentWidth : Nat

/-- Six digits, positional from the fourth place after the point, exponents of two digits or more. -/
def sixDigits : GeneralStyle := ⟨6, -4, 2⟩

namespace GeneralStyle

/-- The significant digits of an exact decimal as a whole number, and the power of ten of the first. -/
def significant (style : GeneralStyle) (exact : Decimal) : Nat × Int :=
  let rounded := roundDiv exact.coefficient (Nat.pow 10 (exact.length - style.digits))
  let power := exact.exponent + exact.length - 1
  -- Rounding up from nines gives one digit more, and the power moves with it.
  if rounded = Nat.pow 10 style.digits then (Nat.pow 10 (style.digits - 1), power + 1) else (rounded, power)

/-- An exact decimal rounded to a number of places after the point. -/
def toPlaces (exact : Decimal) (places : Nat) : Decimal :=
  ⟨exact.negative, roundDiv (exact.coefficient * Nat.pow 10 places) (Nat.pow 10 exact.exponent.natAbs), -places⟩

/-- An exponent with its sign and leading zeros. -/
def exponentText (style : GeneralStyle) (power : Int) : List Char :=
  let digits := Nat.toDigits 10 power.natAbs
  'e' :: (if power < 0 then '-' else '+') ::
    (List.replicate (style.exponentWidth - digits.length) '0' ++ digits)

/-- The text of an exact decimal that is not zero and has no positive power of ten. -/
def decimalText (style : GeneralStyle) (exact : Decimal) : List Char :=
  let (digits, power) := style.significant exact
  -- A very small or large number is its digits with one before the point, and a power of ten.
  if power < style.leastPositional ∨ (style.digits : Int) ≤ power then
    let mantissa : Decimal := ⟨exact.negative, digits, 1 - (style.digits : Int)⟩
    stripFraction mantissa.positional ++ style.exponentText power
  -- Any other number is rounded to the places that its first digit leaves.
  else
    stripFraction (toPlaces exact ((style.digits : Int) - 1 - power).toNat).positional

end GeneralStyle

/-- A number to six significant digits. -/
def generalText {format : BinaryFormat} : Binary format → String
  | .notANumber => "nan"
  | .infinite negative => if negative then "-inf" else "inf"
  | .finite negative magnitude _ =>
    if magnitude = 0 then if negative then "-0" else "0"
    else String.ofList (sixDigits.decimalText (Decimal.ofMagnitude format negative magnitude))

end ConfigStore
