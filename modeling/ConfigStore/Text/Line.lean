import ConfigStore.Text.Separate
import ConfigStore.Text.Utf8

/-! Texts are split at newlines, and long lines are cut to a number of bytes. -/

namespace ConfigStore

/-- The longest start of a text that is whole characters of at most so many bytes together. -/
def takeBytes (limit : Nat) : List Char → List Char
  | [] => []
  | char :: rest => if char.utf8Size ≤ limit then char :: takeBytes (limit - char.utf8Size) rest else []

/-- Whether a position among the bytes of a text is between characters: at the start, at the end, or in front of a byte
that begins a character. -/
def isBoundary (bytes : List UInt8) (position : Nat) : Bool :=
  position == 0 ||
    match bytes[position]? with
    | some byte => !Utf8.continues byte
    | none => position == bytes.length

/-- The last position between characters that is no further than a given one, found by going back step by step. There
is nothing in front of the start to go back to. -/
def boundaryBefore? (bytes : List UInt8) : Nat → Option Nat
  | 0 => if isBoundary bytes 0 then some 0 else none
  | position + 1 => if isBoundary bytes (position + 1) then some (position + 1) else boundaryBefore? bytes position

/-- The start of a text that has so many bytes, if they end between characters of the text. -/
def sliceTo? : Nat → List Char → Option (List Char)
  | 0, _ => some []
  | _ + 1, [] => none
  | size + 1, char :: rest =>
    if char.utf8Size ≤ size + 1 then (sliceTo? (size + 1 - char.utf8Size) rest).map (char :: ·) else none

/-- A text cut to at most so many bytes, at the last position between characters. -/
def cutLine? (limit : Nat) (text : List Char) : Option (List Char) :=
  let bytes := Utf8.encode (String.ofList text)
  if bytes.length ≤ limit then some text
  else (boundaryBefore? bytes limit).bind (sliceTo? · text)

/-- The byte that ends lines. -/
def newlineByte : UInt8 := 10

/-- The lines of bytes that end at newlines, where a last unfinished one counts if it holds anything. -/
def byteLines (bytes : List UInt8) : List (List UInt8) :=
  let pieces := separate newlineByte bytes
  if pieces.getLast? = some [] then pieces.dropLast else pieces

end ConfigStore
