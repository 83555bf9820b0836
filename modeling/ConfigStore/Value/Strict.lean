import ConfigStore.Address.Reading
import ConfigStore.Value.Basic

/-! Strict reading of values: the whole text must spell a value of the wanted type, or the fault is named. -/

namespace ConfigStore

/-- The types that a value can be read as strictly. -/
inductive StrictType where
  | int32
  | uint8
  | int64
  | uint64
  | bool
  | char
  | double
  | single
  | text
  | ipAddress
  | ipv4
  | ipv6
  | socketAddress
  deriving DecidableEq, Repr

/-- The name of a type in messages. -/
def StrictType.name : StrictType → String
  | .int32 => "i32"
  | .uint8 => "u8"
  | .int64 => "i64"
  | .uint64 => "u64"
  | .bool => "bool"
  | .char => "char"
  | .double => "f64"
  | .single => "f32"
  | .text => "alloc::string::String"
  | .ipAddress => "core::net::ip_addr::IpAddr"
  | .ipv4 => "core::net::ip_addr::Ipv4Addr"
  | .ipv6 => "core::net::ip_addr::Ipv6Addr"
  | .socketAddress => "core::net::socket_addr::SocketAddr"

/-- What a text spells when it is read strictly. -/
inductive StrictValue where
  | int (value : Int)
  | bool (value : Bool)
  | char (value : Char)
  | double (value : Binary .double)
  | single (value : Binary .single)
  | text (value : String)
  | ipAddress (value : IpAddress)
  | ipv4 (value : Ipv4)
  | ipv6 (value : Ipv6)
  | socketAddress (value : SocketAddress)
  deriving DecidableEq

/-- Why a text spells no value of a type. -/
inductive ConversionFault where
  /-- A whole number has no text at all. -/
  | integerEmpty
  /-- A whole number holds something other than digits behind its sign. -/
  | integerDigit
  /-- A whole number is above its range. -/
  | integerAbove
  /-- A whole number is below its range. -/
  | integerBelow
  /-- A truth value is neither of its two words. -/
  | boolWord
  /-- A character has no text at all. -/
  | charEmpty
  /-- A character is followed by another. -/
  | charMany
  /-- A floating point number has no text at all. -/
  | floatEmpty
  /-- A floating point number is not one as a whole. -/
  | floatLiteral
  /-- Not four bytes. -/
  | ipv4
  /-- Not eight groups. -/
  | ipv6
  /-- Neither four bytes nor eight groups. -/
  | ipAddress
  /-- Not an address and a port. -/
  | socketAddress
  deriving DecidableEq, Repr

/-- The wording of a fault. -/
def ConversionFault.message : ConversionFault → String
  | .integerEmpty => "cannot parse integer from empty string"
  | .integerDigit => "invalid digit found in string"
  | .integerAbove => "number too large to fit in target type"
  | .integerBelow => "number too small to fit in target type"
  | .boolWord => "provided string was not `true` or `false`"
  | .charEmpty => "cannot parse char from empty string"
  | .charMany => "too many characters in string"
  | .floatEmpty => "cannot parse float from empty string"
  | .floatLiteral => "invalid float literal"
  | .ipv4 => "invalid IPv4 address syntax"
  | .ipv6 => "invalid IPv6 address syntax"
  | .ipAddress => "invalid IP address syntax"
  | .socketAddress => "invalid socket address syntax"

namespace Strict

/-- Reads digits from the left onto a value, and stops at the first fault. -/
def digits (range : IntRange) (negative : Bool) : Int → List Char → Except ConversionFault Int
  | value, [] => .ok value
  | value, char :: rest =>
    if !char.isDigit then .error .integerDigit
    else
      let digit : Int := char.toNat - '0'.toNat
      let next := if negative then value * 10 - digit else value * 10 + digit
      if range.greatest < next then .error .integerAbove
      else if next < range.least then .error .integerBelow
      else digits range negative next rest

/-- A whole number has an optional sign, of which the minus needs a signed type, and then digits only. -/
def integer (range : IntRange) : List Char → Except ConversionFault Int
  | [] => .error .integerEmpty
  | ['+'] => .error .integerDigit
  | ['-'] => .error .integerDigit
  | '+' :: rest => digits range false 0 rest
  | '-' :: rest => if range.least < 0 then digits range true 0 rest else .error .integerDigit
  | text => digits range false 0 text

/-- A truth value is one of two words in small letters. -/
def bool (text : String) : Except ConversionFault Bool :=
  if text = "true" then .ok true
  else if text = "false" then .ok false
  else .error .boolWord

/-- A character is a text of length one. -/
def char : List Char → Except ConversionFault Char
  | [] => .error .charEmpty
  | [only] => .ok only
  | _ => .error .charMany

/-- A floating point number is the whole text of one. -/
def float (format : BinaryFormat) (text : List Char) : Except ConversionFault (Binary format) :=
  if text.isEmpty then .error .floatEmpty
  else match Literal.ofText? text with
    | some literal => .ok (literal.toBinary format)
    | none => .error .floatLiteral

/-- What a reader found, or the fault that it found nothing. -/
def found {α : Type} (fault : ConversionFault) : Option α → Except ConversionFault α
  | some value => .ok value
  | none => .error fault

end Strict

/-- Reads a text strictly as a type. -/
def StrictType.read (type : StrictType) (text : String) : Except ConversionFault StrictValue :=
  match type with
  | .int32 => .int <$> Strict.integer (.signed 32) text.toList
  | .uint8 => .int <$> Strict.integer (.unsigned 8) text.toList
  | .int64 => .int <$> Strict.integer (.signed 64) text.toList
  | .uint64 => .int <$> Strict.integer (.unsigned 64) text.toList
  | .bool => .bool <$> Strict.bool text
  | .char => .char <$> Strict.char text.toList
  | .double => .double <$> Strict.float .double text.toList
  | .single => .single <$> Strict.float .single text.toList
  | .text => .ok (.text text)
  | .ipAddress => .ipAddress <$> Strict.found .ipAddress (IpAddress.ofText? text)
  | .ipv4 => .ipv4 <$> Strict.found .ipv4 (Ipv4.ofText? text)
  | .ipv6 => .ipv6 <$> Strict.found .ipv6 (Ipv6.ofText? text)
  | .socketAddress => .socketAddress <$> Strict.found .socketAddress (SocketAddress.ofText? text)

end ConfigStore
