import ConfigStore.Number.Literal
import ConfigStore.Text.Blank

/-! Whole numbers: the one at the start of a text, clamped to its range, and the text of one. -/

namespace ConfigStore

/-- The least and the greatest value of a type of whole numbers. -/
structure IntRange where
  least : Int
  greatest : Int
  deriving DecidableEq, Repr

namespace IntRange

/-- Signed numbers of a width. -/
def signed (bits : Nat) : IntRange := ⟨-(Nat.pow 2 (bits - 1) : Int), (Nat.pow 2 (bits - 1) : Int) - 1⟩

/-- Unsigned numbers of a width. -/
def unsigned (bits : Nat) : IntRange := ⟨0, (Nat.pow 2 bits : Int) - 1⟩

/-- The value of the range nearest to a number. -/
def clamp (range : IntRange) (value : Int) : Int :=
  max range.least (min range.greatest value)

end IntRange

/-- The range in which digits are counted while they are read. -/
def counterRange : IntRange := .signed 64

/-- A number with one more digit behind it, where the product and the sum are each held in the range. -/
def countDigit (value : Int) (digit : Char) : Int :=
  counterRange.clamp (counterRange.clamp (value * 10) + (digit.toNat - '0'.toNat : Nat))

/-- The value of a run of digits, held at the end of the range once it is reached. -/
def saturatingValue (digits : List Char) : Int :=
  digits.foldl countDigit 0

/-- The whole number at the start of a text behind blanks, or zero, clamped to 32 bits. -/
def leadingInt (text : List Char) : Int :=
  let (negative, unsigned) := splitSign (text.dropWhile isNumberSpace)
  let magnitude := saturatingValue (unsigned.takeWhile Char.isDigit)
  (IntRange.signed 32).clamp (if negative then -magnitude else magnitude)

/-- A whole number in decimal. -/
def intText (value : Int) : String :=
  String.ofList (Decimal.signed (value < 0) (Nat.toDigits 10 value.natAbs))

end ConfigStore
