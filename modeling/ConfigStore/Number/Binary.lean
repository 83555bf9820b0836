import ConfigStore.Number.Rounding

/-! Binary floating point numbers, held as a sign and the whole number that their remaining bits spell.
The bits of a finite number count upwards with its size, so rounding can work on them directly. -/

namespace ConfigStore

/-- The widths of the two fields that follow the sign of a binary floating point number. -/
structure BinaryFormat where
  fractionBits : Nat
  exponentBits : Nat
  deriving DecidableEq, Repr

namespace BinaryFormat

/-- Numbers of 32 bits. -/
def single : BinaryFormat := ⟨23, 8⟩

/-- Numbers of 64 bits. -/
def double : BinaryFormat := ⟨52, 11⟩

/-- The magnitude bits of infinity: all of the exponent and nothing of the fraction. -/
def infinity (format : BinaryFormat) : Nat :=
  (Nat.pow 2 format.exponentBits - 1) * Nat.pow 2 format.fractionBits

/-- The sign bit. -/
def signBit (format : BinaryFormat) : Nat :=
  Nat.pow 2 (format.fractionBits + format.exponentBits)

/-- The least positive number is one unit, which is two to the power of minus this. -/
def unitExponent (format : BinaryFormat) : Nat :=
  Nat.pow 2 (format.exponentBits - 1) - 2 + format.fractionBits

/-- How many units the finite number of some magnitude bits is. -/
def units (format : BinaryFormat) (magnitude : Nat) : Nat :=
  let fraction := magnitude % Nat.pow 2 format.fractionBits
  let exponent := magnitude / Nat.pow 2 format.fractionBits
  -- Below the first exponent the leading one is missing, and the spacing stays the same.
  if exponent = 0 then fraction else (Nat.pow 2 format.fractionBits + fraction) * Nat.pow 2 (exponent - 1)

/-- The magnitude bits nearest to a quotient of units, where a half goes to the even neighbour and what is
too large becomes infinite. -/
def nearest (format : BinaryFormat) (numerator denominator : Nat) : Nat :=
  -- The quotient is rounded to as many binary digits as a significand has. A carry out of them moves into the
  -- exponent by itself, since the bits count upwards.
  let shift := Nat.log2 (numerator / denominator) - format.fractionBits
  min (shift * Nat.pow 2 format.fractionBits + roundDiv numerator (denominator * Nat.pow 2 shift)) format.infinity

end BinaryFormat

/-- A binary floating point number, in which all that are not a number are one. -/
inductive Binary (format : BinaryFormat) where
  /-- A number with a sign, zero included. -/
  | finite (negative : Bool) (magnitude : Nat) (bounded : magnitude < format.infinity)
  | infinite (negative : Bool)
  | notANumber
  deriving DecidableEq, Repr

namespace Binary

variable {format : BinaryFormat}

/-- The number with a sign and magnitude bits, infinite from the bits of infinity on. -/
def ofMagnitude (format : BinaryFormat) (negative : Bool) (magnitude : Nat) : Binary format :=
  if bounded : magnitude < format.infinity then .finite negative magnitude bounded else .infinite negative

/-- The number that bits spell. -/
def ofBits (format : BinaryFormat) (bits : Nat) : Binary format :=
  let magnitude := bits % format.signBit
  let negative := bits / format.signBit % 2 == 1
  -- A full exponent with a fraction is no number.
  if magnitude ≤ format.infinity then ofMagnitude format negative magnitude else .notANumber

/-- The bits of a number, if it is one. -/
def toBits? : Binary format → Option Nat
  | .finite negative magnitude _ => some ((if negative then format.signBit else 0) + magnitude)
  | .infinite negative => some ((if negative then format.signBit else 0) + format.infinity)
  | .notANumber => none

/-- The nearest number of another format. -/
def convert (target : BinaryFormat) : Binary format → Binary target
  | .finite negative magnitude _ =>
    .ofMagnitude target negative
      (target.nearest (format.units magnitude * Nat.pow 2 target.unitExponent) (Nat.pow 2 format.unitExponent))
  | .infinite negative => .infinite negative
  | .notANumber => .notANumber

/-- Positive zero. -/
def zero (format : BinaryFormat) : Binary format :=
  ofMagnitude format false 0

end Binary

end ConfigStore
