/-! UTF-8 text is written byte by byte and read leniently: what cannot be a character reads as one
replacement character for each maximal broken piece. -/

namespace ConfigStore.Utf8

/-- The bytes of a text. -/
def encode (text : String) : List UInt8 :=
  text.toList.flatMap String.utf8EncodeChar

/-- The characters of bytes, each of which is looked at on its own. -/
def byteChars (bytes : List UInt8) : List Char :=
  bytes.map fun byte => Char.ofNat byte.toNat

/-- Whether a byte only continues a character that another one began. -/
def continues (byte : UInt8) : Bool :=
  0x80 ≤ byte.toNat && byte.toNat < 0xC0

/-- The character that stands for a broken piece. -/
def replacement : Char := '\uFFFD'

/-- A character of which some bytes have been read. -/
structure Pending where
  /-- The bits read so far. -/
  bits : Nat
  /-- How many bytes follow after the next one. -/
  owed : Nat
  /-- The least value the next byte may have. -/
  low : Nat
  /-- The greatest value the next byte may have. -/
  high : Nat
  deriving DecidableEq, Repr

/-- A byte that arrives between characters is one, opens one, or is broken. -/
def start (byte : UInt8) : List Char × Option Pending :=
  let value := byte.toNat
  if value < 0x80 then ([Char.ofNat value], none)
  -- A byte that only continues, or would open a character that needs fewer bytes.
  else if value < 0xC2 then ([replacement], none)
  else if value < 0xE0 then ([], some ⟨value - 0xC0, 0, 0x80, 0xBF⟩)
  else if value < 0xF0 then
    ([], some ⟨value - 0xE0, 1, if value = 0xE0 then 0xA0 else 0x80, if value = 0xED then 0x9F else 0xBF⟩)
  else if value < 0xF5 then
    ([], some ⟨value - 0xF0, 2, if value = 0xF0 then 0x90 else 0x80, if value = 0xF4 then 0x8F else 0xBF⟩)
  else ([replacement], none)

/-- A byte inside a character continues it, or breaks it off and then stands on its own. -/
def step : Option Pending → UInt8 → List Char × Option Pending
  | none, byte => start byte
  | some pending, byte =>
    let value := byte.toNat
    if pending.low ≤ value ∧ value ≤ pending.high then
      let bits := pending.bits * 64 + (value - 0x80)
      match pending.owed with
      | 0 => ([Char.ofNat bits], none)
      | owed + 1 => ([], some ⟨bits, owed, 0x80, 0xBF⟩)
    -- The byte does not belong to the character, which stays unfinished.
    else
      let (chars, next) := start byte
      (replacement :: chars, next)

/-- The characters that bytes come to after an unfinished one. -/
def decodeFrom : Option Pending → List UInt8 → List Char
  | none, [] => []
  | some _, [] => [replacement]
  | pending, byte :: rest =>
    let (chars, next) := step pending byte
    chars ++ decodeFrom next rest

/-- The characters that bytes come to. -/
def decode (bytes : List UInt8) : List Char :=
  decodeFrom none bytes

end ConfigStore.Utf8
