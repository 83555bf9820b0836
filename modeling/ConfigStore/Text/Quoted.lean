import ConfigStore.Text.Unprintable

/-! Names in diagnostics stand in double quotes, with what cannot be seen written as an escape. -/

namespace ConfigStore

/-- A code point in lower case hexadecimal. -/
def hexDigits (value : Nat) : String :=
  String.ofList (Nat.toDigits 16 value)

/-- How a character is written between double quotes. -/
def quoteChar (char : Char) : String :=
  if char == '"' then "\\\""
  else if char == '\\' then "\\\\"
  else if char == '\n' then "\\n"
  else if char == '\r' then "\\r"
  else if char == '\t' then "\\t"
  else if char.toNat = 0 then "\\0"
  else if char.toNat < 0x20 || (0x7F ≤ char.toNat && isShapeless char) then
    "\\u\x7b" ++ hexDigits char.toNat ++ "\x7d"
  else char.toString

/-- A name in double quotes. -/
def quoted (name : String) : String :=
  "\"" ++ String.join (name.toList.map quoteChar) ++ "\""

/-- Names in double quotes, in brackets. -/
def quotedList (names : List String) : String :=
  "[" ++ ", ".intercalate (names.map quoted) ++ "]"

end ConfigStore
