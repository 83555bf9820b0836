import ConfigStore.Number.Decimal

/-! The decimal text of a binary number with the fewest digits that read back as the same number. -/

namespace ConfigStore

/-- Numbers of 64 bits need no more digits than this. -/
def mostDigits : Nat := 17

/-- Whether a decimal reads back as the finite number of some magnitude bits. -/
def Decimal.readsBack (format : BinaryFormat) (magnitude : Nat) (number : Decimal) : Bool :=
  number.magnitude format == magnitude

/-- Among numbers of so many digits, the nearer of the two around an exact decimal that reads back, an exact
tie going upwards. -/
def shortestOf? (format : BinaryFormat) (magnitude : Nat) (exact : Decimal) (digits : Nat) : Option Decimal :=
  -- The grid of so many digits has one point at or below the number and one above it.
  let dropped := exact.length - digits
  let grid := Nat.pow 10 dropped
  let low : Decimal := ⟨exact.negative, exact.coefficient / grid, exact.exponent + dropped⟩
  let high : Decimal := { low with coefficient := low.coefficient + 1 }
  if 2 * (exact.coefficient % grid) < grid then
    [low, high].find? (Decimal.readsBack format magnitude)
  else
    [high, low].find? (Decimal.readsBack format magnitude)

/-- The nearest of the decimals with the fewest digits that read back as a finite number. -/
def shortest (format : BinaryFormat) (negative : Bool) (magnitude : Nat) : Decimal :=
  let exact := Decimal.ofMagnitude format negative magnitude
  ((List.range mostDigits).findSome? fun fewer => shortestOf? format magnitude exact (fewer + 1)).getD exact

/-- A number in positional notation with the fewest digits that read back. -/
def exactText {format : BinaryFormat} : Binary format → String
  | .notANumber => "nan"
  | .infinite negative => if negative then "-inf" else "inf"
  | .finite negative magnitude _ =>
    if magnitude = 0 then if negative then "-0" else "0"
    else String.ofList (stripFraction (shortest format negative magnitude).positional)

end ConfigStore
