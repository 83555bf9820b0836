/-! The arguments of a command-line tool: a fixed number of names, and two options. -/

namespace ConfigStore

/-- What arguments come to. -/
inductive Arguments where
  /-- All that a tool needs. -/
  | complete (names : List String)
  /-- The version is asked for. -/
  | version
  /-- Help is asked for. -/
  | help
  /-- They make no sense. -/
  | refused
  deriving DecidableEq, Repr

namespace Arguments

/-- What an option that is more than a dash comes to. Only the first letter behind one dash counts. -/
def ofOption (option : String) : Arguments :=
  match option.toList with
  | '-' :: '-' :: _ =>
    if option == "--version" then .version
    else if option == "--help" then .help
    else .refused
  | _ :: 'V' :: _ => .version
  | _ :: 'h' :: _ => .help
  | _ => .refused

/-- Whether an argument is an option. -/
def isOption (argument : String) : Bool :=
  match argument.toList with
  | '-' :: _ :: _ => true
  | _ => false

/-- Reads arguments from the left up to the first that decides. Behind two dashes all are names. -/
def read (wanted : Nat) (names : List String) (isOpen : Bool) : List String → Arguments
  | [] => if names.length = wanted then .complete names else .refused
  | argument :: rest =>
    if isOpen && argument == "--" then read wanted names false rest
    else if isOpen && isOption argument then ofOption argument
    -- One name too many decides before anything behind it.
    else if names.length = wanted then .refused
    else read wanted (names ++ [argument]) isOpen rest

end Arguments

end ConfigStore
