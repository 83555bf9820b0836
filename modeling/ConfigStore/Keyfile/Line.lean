/-! What one line of a keyfile says. -/

namespace ConfigStore

/-- What a line says. -/
inductive Line where
  /-- A section begins. -/
  | header (name : String)
  /-- A key has a value. -/
  | entry (key value : String)
  /-- Nothing. -/
  | void
  deriving DecidableEq, Repr

namespace Line

/-- A line that begins with a bracket is a header up to the bracket that closes it first, and says nothing
without one. Comments say nothing. Of the others, those with a value behind an equals sign are entries. -/
def ofChars : List Char → Line
  | '[' :: rest =>
    if rest.contains ']' then .header (String.ofList (rest.takeWhile (· != ']'))) else .void
  | '#' :: _ => .void
  | text =>
    match text.dropWhile (· != '=') with
    | _ :: first :: value =>
      .entry (String.ofList (text.takeWhile (· != '='))) (String.ofList (first :: value))
    | _ => .void

end Line

end ConfigStore
