/-! What counts as blank: six ASCII characters before a number, all of Unicode's white space around a name. -/

namespace ConfigStore

/-- Space, tab, newline, vertical tab, form feed and carriage return may stand before a number. -/
def isNumberSpace (char : Char) : Bool :=
  char == ' ' || (9 ≤ char.toNat && char.toNat ≤ 13)

/-- Unicode's white space. -/
def isBlank (char : Char) : Bool :=
  let code := char.toNat
  (9 ≤ code && code ≤ 13) || code == 0x20 || code == 0x85 || code == 0xA0 || code == 0x1680 ||
    (0x2000 ≤ code && code ≤ 0x200A) || code == 0x2028 || code == 0x2029 || code == 0x202F ||
    code == 0x205F || code == 0x3000

/-- A text without the blanks at both ends. -/
def trimBlanks (text : List Char) : List Char :=
  ((text.dropWhile isBlank).reverse.dropWhile isBlank).reverse

/-- The first line of a text without the blanks around it, if anything remains. -/
def firstName? (text : List Char) : Option String :=
  let name := trimBlanks (text.takeWhile (· != '\n'))
  if name.isEmpty then none else some (String.ofList name)

end ConfigStore
