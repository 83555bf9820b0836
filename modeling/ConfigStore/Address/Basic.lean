import ConfigStore.Text.Quoted

/-! Internet addresses and their text. -/

namespace ConfigStore

/-- An address of four bytes. -/
structure Ipv4 where
  /-- The bytes from first to last. -/
  bytes : List Nat
  deriving DecidableEq, Repr

/-- An address of eight groups of sixteen bits. -/
structure Ipv6 where
  /-- The groups from first to last. -/
  groups : List Nat
  deriving DecidableEq, Repr

/-- An address of either kind. -/
inductive IpAddress where
  | v4 (address : Ipv4)
  | v6 (address : Ipv6)
  deriving DecidableEq, Repr

/-- An address, a port, and for eight groups the scope that the address is meant in. -/
inductive SocketAddress where
  | v4 (address : Ipv4) (port : Nat)
  | v6 (address : Ipv6) (scope port : Nat)
  deriving DecidableEq, Repr

/-- A whole number in decimal. -/
def decimalDigits (value : Nat) : String :=
  String.ofList (Nat.toDigits 10 value)

/-- Four bytes in decimal with points between them. -/
def Ipv4.text (address : Ipv4) : String :=
  ".".intercalate (address.bytes.map decimalDigits)

namespace Ipv6

/-- A run of groups: where it begins and how many they are. -/
structure Run where
  /-- The index of the first group. -/
  start : Nat
  /-- How many groups. -/
  length : Nat

/-- The longest run of zero groups, the first of several, given the longest so far and the one that ends at
the current group. -/
def longestZeros (longest current : Run) (index : Nat) : List Nat → Run
  | [] => longest
  | group :: rest =>
    -- A zero lengthens the current run, and only a longer run takes the place of an earlier one.
    if group = 0 then
      let run : Run := ⟨if current.length = 0 then index else current.start, current.length + 1⟩
      longestZeros (if longest.length < run.length then run else longest) run (index + 1) rest
    else longestZeros longest ⟨0, 0⟩ (index + 1) rest

/-- Groups in hexadecimal with colons between them. -/
def groupsText (groups : List Nat) : String :=
  ":".intercalate (groups.map hexDigits)

/-- The four bytes of an address that only wraps one of them. -/
def mapped? : List Nat → Option Ipv4
  | [0, 0, 0, 0, 0, 0xFFFF, high, low] => some ⟨[high / 256, high % 256, low / 256, low % 256]⟩
  | _ => none

/-- Eight groups, of which the first longest run of two or more zeros is left out. -/
def text (address : Ipv6) : String :=
  match mapped? address.groups with
  | some inner => "::ffff:" ++ inner.text
  | none =>
    let zeros := longestZeros ⟨0, 0⟩ ⟨0, 0⟩ 0 address.groups
    if 1 < zeros.length then
      groupsText (address.groups.take zeros.start) ++ "::" ++
        groupsText (address.groups.drop (zeros.start + zeros.length))
    else groupsText address.groups

end Ipv6

/-- The text of an address of either kind. -/
def IpAddress.text : IpAddress → String
  | .v4 address => address.text
  | .v6 address => address.text

/-- The address, in brackets if it has groups, and its port behind a colon. -/
def SocketAddress.text : SocketAddress → String
  | .v4 address port => address.text ++ ":" ++ decimalDigits port
  | .v6 address scope port =>
    let named := if scope = 0 then "" else "%" ++ decimalDigits scope
    "[" ++ address.text ++ named ++ "]:" ++ decimalDigits port

end ConfigStore
