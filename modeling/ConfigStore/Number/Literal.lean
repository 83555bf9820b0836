import ConfigStore.Number.Decimal

/-! What a number's text denotes: an optional sign, then a word for infinity or for no number, or digits with an
optional fraction and exponent, and nothing else. -/

namespace ConfigStore

/-- What a number's text denotes. -/
inductive Literal where
  /-- The word for infinity. -/
  | infinite (negative : Bool)
  /-- The word for what is not a number. -/
  | notANumber
  /-- Digits. -/
  | decimal (number : Decimal)
  deriving DecidableEq, Repr

/-- Whether a text starts with a minus, and what follows its sign. -/
def splitSign : List Char → Bool × List Char
  | '-' :: rest => (true, rest)
  | '+' :: rest => (false, rest)
  | text => (false, text)

/-- The value of a run of digits. -/
def digitsValue (digits : List Char) : Nat :=
  Nat.ofDigitChars 10 digits 0

namespace Literal

/-- The words for infinity, the longer one first. -/
def infinityWords : List (List Char) :=
  [['i', 'n', 'f', 'i', 'n', 'i', 't', 'y'], ['i', 'n', 'f']]

/-- The word for what is not a number. -/
def nanWord : List Char :=
  ['n', 'a', 'n']

/-- Digits and nothing else. -/
def allDigits (text : List Char) : Bool :=
  text.all Char.isDigit

/-- Whether a character separates a number from its power of ten. -/
def isExponentMark (char : Char) : Bool :=
  char == 'e' || char == 'E'

/-- The power of ten behind a number: none at all, or a mark, an optional sign and digits. -/
def exponent? : List Char → Option Int
  | [] => some 0
  | _ :: power =>
    let (negative, digits) := splitSign power
    if digits.isEmpty || !allDigits digits then none
    else
      let value : Int := digitsValue digits
      some (if negative then -value else value)

/-- A number without its sign: digits on either side of an optional point, and an optional power of ten. -/
def decimal? (negative : Bool) (text : List Char) : Option Decimal :=
  let mantissa := text.takeWhile (!isExponentMark ·)
  let whole := mantissa.takeWhile (· != '.')
  let places := (mantissa.dropWhile (· != '.')).drop 1
  if !allDigits whole || !allDigits places || (whole.isEmpty && places.isEmpty) then none
  else
    (exponent? (text.dropWhile (!isExponentMark ·))).map fun power =>
      ⟨negative, digitsValue (whole ++ places), power - places.length⟩

/-- What a text denotes as a whole, with words in any case. -/
def ofText? (text : List Char) : Option Literal :=
  let (negative, unsigned) := splitSign text
  let word := unsigned.map Char.toLower
  if word ∈ infinityWords then some (.infinite negative)
  else if word = nanWord then some .notANumber
  else (decimal? negative unsigned).map .decimal

/-- The nearest binary number. -/
def toBinary (format : BinaryFormat) : Literal → Binary format
  | .infinite negative => .infinite negative
  | .notANumber => .notANumber
  | .decimal number => number.toBinary format

end Literal

end ConfigStore
