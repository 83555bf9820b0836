import ConfigStore.Address.Basic

/-! Internet addresses are read from text that holds nothing else. Each reader returns what it read and the
rest, or nothing. -/

namespace ConfigStore

/-- The value of a digit of either case in a base up to sixteen. -/
def digitValue? (base : Nat) (char : Char) : Option Nat :=
  let code := char.toNat
  let value? :=
    if '0'.toNat ≤ code ∧ code ≤ '9'.toNat then some (code - '0'.toNat)
    else if 'a'.toNat ≤ code ∧ code ≤ 'f'.toNat then some (code - 'a'.toNat + 10)
    else if 'A'.toNat ≤ code ∧ code ≤ 'F'.toNat then some (code - 'A'.toNat + 10)
    else none
  value?.filter (· < base)

/-- The digits at the start of a text, and the rest. -/
def takeDigits (base : Nat) : List Char → List Nat × List Char
  | [] => ([], [])
  | char :: rest =>
    match digitValue? base char with
    | none => ([], char :: rest)
    | some digit =>
      let (digits, behind) := takeDigits base rest
      (digit :: digits, behind)

/-- What a number in an address may look like. -/
structure NumberShape where
  /-- The base of its digits. -/
  base : Nat
  /-- How many digits it may have at most, if they are limited. -/
  mostDigits : Option Nat
  /-- Whether it may begin with a zero that is not its only digit. -/
  paddable : Bool
  /-- The first value that is too large. -/
  bound : Nat

/-- Reads a number of some shape. -/
def readNumber? (shape : NumberShape) (text : List Char) : Option (Nat × List Char) :=
  let (digits, rest) := takeDigits shape.base text
  let value := digits.foldl (fun value digit => value * shape.base + digit) 0
  let padded := digits.head? == some 0 && 1 < digits.length
  let tooMany := shape.mostDigits.any (· < digits.length)
  if digits.isEmpty || tooMany || (padded && !shape.paddable) || shape.bound ≤ value then none
  else some (value, rest)

/-- Reads one given character. -/
def readChar? (expected : Char) : List Char → Option (List Char)
  | char :: rest => if char == expected then some rest else none
  | [] => none

/-- A byte of an address has up to three decimal digits and no leading zero. -/
def byteShape : NumberShape := ⟨10, some 3, false, 256⟩

/-- A group of an address has up to four hexadecimal digits. -/
def groupShape : NumberShape := ⟨16, some 4, true, 65536⟩

/-- A port is a decimal number of sixteen bits. -/
def portShape : NumberShape := ⟨10, none, true, 65536⟩

/-- A scope is a decimal number of 32 bits. -/
def scopeShape : NumberShape := ⟨10, none, true, Nat.pow 2 32⟩

/-- Reads so many more bytes, each behind a point. -/
def readBytes? : Nat → List Char → Option (List Nat × List Char)
  | 0, text => some ([], text)
  | more + 1, text => do
    let behindPoint ← readChar? '.' text
    let (byte, rest) ← readNumber? byteShape behindPoint
    let (bytes, behind) ← readBytes? more rest
    return (byte :: bytes, behind)

/-- Reads four bytes. -/
def readIpv4? (text : List Char) : Option (Ipv4 × List Char) := do
  let (first, rest) ← readNumber? byteShape text
  let (others, behind) ← readBytes? 3 rest
  return (⟨first :: others⟩, behind)

/-- Reads groups with colons between them, at most so many. Where at least two more fit, four bytes may
stand for the last two, which is reported. -/
def readGroups (first : Bool) : Nat → List Char → List Nat × Bool × List Char
  | 0, text => ([], false, text)
  | more + 1, text =>
    match if first then some text else readChar? ':' text with
    | none => ([], false, text)
    | some behindColon =>
      -- Four bytes take the room of two groups.
      match if more = 0 then none else readIpv4? behindColon with
      | some (⟨[first, second, third, fourth]⟩, rest) =>
        ([first * 256 + second, third * 256 + fourth], true, rest)
      | _ =>
        match readNumber? groupShape behindColon with
        | none => ([], false, text)
        | some (group, rest) =>
          let (groups, wrapped, behind) := readGroups false more rest
          (group :: groups, wrapped, behind)

/-- Reads eight groups, where two colons may stand for one or more groups of zeros. -/
def readIpv6? (text : List Char) : Option (Ipv6 × List Char) :=
  let (head, wrapped, rest) := readGroups true 8 text
  if head.length = 8 then some (⟨head⟩, rest)
  -- Four bytes only stand at the end.
  else if wrapped then none
  else do
    let behindColon ← readChar? ':' rest
    let behindColons ← readChar? ':' behindColon
    let (tail, _, behind) := readGroups true (8 - (head.length + 1)) behindColons
    return (⟨head ++ List.replicate (8 - head.length - tail.length) 0 ++ tail⟩, behind)

/-- Reads an address of either kind. -/
def readIpAddress? (text : List Char) : Option (IpAddress × List Char) :=
  match readIpv4? text with
  | some (address, rest) => some (.v4 address, rest)
  | none => (readIpv6? text).map fun (address, rest) => (.v6 address, rest)

/-- Reads a port behind a colon. -/
def readPort? (text : List Char) : Option (Nat × List Char) := do
  readNumber? portShape (← readChar? ':' text)

/-- Reads a scope behind a percent sign. -/
def readScope? (text : List Char) : Option (Nat × List Char) := do
  readNumber? scopeShape (← readChar? '%' text)

/-- Reads four bytes and a port. -/
def readSocketV4? (text : List Char) : Option (SocketAddress × List Char) := do
  let (address, rest) ← readIpv4? text
  let (port, behind) ← readPort? rest
  return (.v4 address port, behind)

/-- Reads eight groups with an optional scope in brackets, and a port. -/
def readSocketV6? (text : List Char) : Option (SocketAddress × List Char) := do
  let inner ← readChar? '[' text
  let (address, rest) ← readIpv6? inner
  let (scope, behindScope) := (readScope? rest).getD (0, rest)
  let behindBracket ← readChar? ']' behindScope
  let (port, behind) ← readPort? behindBracket
  return (.v6 address scope port, behind)

/-- What a reader makes of a whole text, with nothing left over. -/
def readWhole? {α : Type} (reader : List Char → Option (α × List Char)) (text : String) : Option α :=
  match reader text.toList with
  | some (value, []) => some value
  | _ => none

/-- The address of four bytes that a text spells. -/
def Ipv4.ofText? (text : String) : Option Ipv4 := readWhole? readIpv4? text

/-- The address of eight groups that a text spells. -/
def Ipv6.ofText? (text : String) : Option Ipv6 := readWhole? readIpv6? text

/-- The address of either kind that a text spells. -/
def IpAddress.ofText? (text : String) : Option IpAddress := readWhole? readIpAddress? text

/-- The address and port that a text spells. -/
def SocketAddress.ofText? (text : String) : Option SocketAddress :=
  readWhole? (fun chars => (readSocketV4? chars).orElse fun _ => readSocketV6? chars) text

end ConfigStore
