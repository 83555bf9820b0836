import ConfigStore.Number.Binary

/-! Decimal numbers: a sign, a whole coefficient and a power of ten. -/

namespace ConfigStore

/-- A coefficient times a power of ten, with a sign. -/
structure Decimal where
  /-- Whether the number is below zero, or the zero below zero. -/
  negative : Bool
  /-- The whole number that the digits spell. -/
  coefficient : Nat
  /-- The power of ten that it is multiplied by. -/
  exponent : Int
  deriving DecidableEq, Repr

namespace Decimal

/-- The magnitude bits of the nearest binary number. Powers of ten far outside the format's range are
settled without being written out. -/
def magnitude (format : BinaryFormat) (number : Decimal) : Nat :=
  let power := number.exponent.natAbs
  if number.coefficient = 0 then 0
  else if 0 ≤ number.exponent then
    -- Ten is more than three doublings, and the exponent field cannot count that many.
    if Nat.pow 2 format.exponentBits < 3 * power then format.infinity
    else format.nearest (number.coefficient * Nat.pow 10 power * Nat.pow 2 format.unitExponent) 1
  -- So many tenths leave less than half a unit.
  else if format.unitExponent + Nat.log2 number.coefficient + 2 < 3 * power then 0
  else format.nearest (number.coefficient * Nat.pow 2 format.unitExponent) (Nat.pow 10 power)

/-- The nearest binary number, a zero keeping its sign. -/
def toBinary (format : BinaryFormat) (number : Decimal) : Binary format :=
  .ofMagnitude format number.negative (number.magnitude format)

/-- The finite binary number of some magnitude bits, exactly. -/
def ofMagnitude (format : BinaryFormat) (negative : Bool) (magnitude : Nat) : Decimal :=
  ⟨negative, format.units magnitude * Nat.pow 5 format.unitExponent, -format.unitExponent⟩

/-- How many digits the coefficient has. -/
def length (number : Decimal) : Nat :=
  (Nat.toDigits 10 number.coefficient).length

/-- A text with a minus in front if the number is below zero. -/
def signed (negative : Bool) (text : List Char) : List Char :=
  if negative then '-' :: text else text

/-- The digits of a number in positional notation, with as many places after the point as its power of ten
asks for. -/
def positional (number : Decimal) : List Char :=
  let digits := Nat.toDigits 10 number.coefficient
  if 0 ≤ number.exponent then
    signed number.negative (digits ++ List.replicate number.exponent.natAbs '0')
  else
    -- At least one digit stands before the point.
    let places := number.exponent.natAbs
    let padded := List.replicate (places + 1 - digits.length) '0' ++ digits
    let whole := padded.length - places
    signed number.negative (padded.take whole ++ '.' :: padded.drop whole)

end Decimal

/-- A text without the characters at its end that a test accepts. -/
def dropEnd (test : Char → Bool) (text : List Char) : List Char :=
  (text.reverse.dropWhile test).reverse

/-- A number's text without the zeros that end its fraction, and without a point that nothing follows. -/
def stripFraction (text : List Char) : List Char :=
  if text.contains '.' then dropEnd (· == '.') (dropEnd (· == '0') text) else text

end ConfigStore
