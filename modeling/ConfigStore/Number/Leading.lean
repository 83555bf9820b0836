import ConfigStore.Number.Literal
import ConfigStore.Text.Blank
import ConfigStore.Text.Line
import ConfigStore.Text.Utf8

/-! The number at the start of a text. Its end is found among the bytes of the text, as far behind as a number goes,
and what is in front of the end is read as a whole. -/

namespace ConfigStore

namespace Leading

/-- How many characters the sign at the start of a text has. -/
def signLength : List Char → Nat
  | '+' :: _ => 1
  | '-' :: _ => 1
  | _ => 0

/-- The word at the start of a text, in any case. The longer words come first, since the shorter ones begin them. -/
def word? (text : List Char) : Option (List Char) :=
  (Literal.infinityWords ++ [Literal.nanWord]).find? fun word => (text.take word.length).map Char.toLower == word

/-- How many digits are at the start of a text. -/
def digitCount (text : List Char) : Nat :=
  (text.takeWhile Char.isDigit).length

/-- How many characters the point and the digits behind it have at the start of a text, when so many digits are in front
of it. A point without a digit on either side is not taken. -/
def fractionLength (whole : Nat) : List Char → Nat
  | '.' :: rest => if whole + digitCount rest = 0 then 0 else 1 + digitCount rest
  | _ => 0

/-- How many characters the exponent at the start of a text has. A mark without a digit behind it is not taken. -/
def exponentLength : List Char → Nat
  | [] => 0
  | mark :: rest =>
    if Literal.isExponentMark mark then
      let sign := signLength rest
      let digits := digitCount (rest.drop sign)
      if digits = 0 then 0 else 1 + sign + digits
    else 0

/-- How many characters the digits at the start of a text have, with the point among them. -/
def mantissaLength (text : List Char) : Nat :=
  let whole := digitCount text
  whole + fractionLength whole (text.drop whole)

/-- How many characters the digits and the exponent at the start of a text have. -/
def decimalLength (text : List Char) : Nat :=
  let mantissa := mantissaLength text
  if mantissa = 0 then 0 else mantissa + exponentLength (text.drop mantissa)

/-- How many characters the number at the start of a text has. A sign without a number is not taken. -/
def numberLength (text : List Char) : Nat :=
  let sign := signLength text
  let unsigned := text.drop sign
  match word? unsigned with
  | some word => sign + word.length
  | none => if decimalLength unsigned = 0 then 0 else sign + decimalLength unsigned

end Leading

/-- How many bytes the number at the start of some bytes has, as a number has only characters of one byte. -/
def leadingLength (bytes : List UInt8) : Nat :=
  Leading.numberLength (Utf8.byteChars bytes)

/-- The number at the start of a text behind blanks, or zero. -/
def leadingDouble (text : List Char) : Binary .double :=
  let behind := text.dropWhile isNumberSpace
  match leadingLength (Utf8.encode (String.ofList behind)) with
  | 0 => .zero .double
  | length =>
    match Literal.ofText? (takeBytes length behind) with
    | some literal => literal.toBinary .double
    | none => .zero .double

end ConfigStore
