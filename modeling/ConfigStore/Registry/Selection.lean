import ConfigStore.Backend.Basic

/-! Which backend to use: named by the environment, preferred by a file, or the default. -/

namespace ConfigStore

/-- What was asked for, before it is held against the backends that there are. -/
inductive Selection where
  /-- This name, whether or not there is such a backend. -/
  | explicit (name : String)
  /-- This name, if there is such a backend. -/
  | preferred (name : String)
  /-- Nothing. -/
  | default
  deriving DecidableEq, Repr

namespace Selection

/-- The name of the backend to use among those of some names. -/
def resolve (names : List String) : Selection → String
  | .explicit name => name
  | .preferred name => (names.find? (sameName · name)).getD keyfileBackendName
  | .default => keyfileBackendName

/-- A selection in diagnostics. -/
def describe : Selection → String
  | .explicit name => s!"Explicit({quoted name})"
  | .preferred name => s!"Preferred({quoted name})"
  | .default => "Default"

end Selection

/-- The environment variable that names a backend. -/
def selectionVariable : String := "MCS_BACKEND"

/-- The name of a user's file that names a backend, below the home directory. -/
def userSelectionFile : String := ".mcs-backend"

/-- The file of the whole system that names a backend. -/
def systemSelectionFile : String := "/etc/mcs-backend"

/-- Where to look for the name of a backend. -/
structure Selector where
  /-- The name that comes before any file. -/
  override : Option String := none
  /-- The user's file. -/
  userFile : Option String := none
  /-- The file of the whole system, for want of a user's file that can be read. -/
  systemFile : Option String := none
  deriving DecidableEq, Repr

/-- The home directory: the one that the environment names, or else the one in the user's account. -/
def homeDirectory? : Effect (Option String) := do
  return ((← World.lookup? "HOME").filter (!·.isEmpty)).or (← get).accountHome

namespace Selector

/-- The places that the environment tells. -/
def ofEnvironment : Effect Selector := do
  return {
    override := (← World.lookup? selectionVariable).filter (!·.isEmpty)
    userFile := (← homeDirectory?).map (Path.join · userSelectionFile)
    systemFile := some systemSelectionFile }

/-- The text of a file that names a backend, if it can be read. -/
def readText? (path : String) : Effect (Option (List Char)) := do
  match (← get).files.contents path with
  | .error _ => return none
  | .ok content =>
    World.report [.selectionRead path]
    return some (Utf8.decode content)

/-- The text of the first of some files that can be read. -/
def readFirst? : List String → Effect (Option (List Char))
  | [] => return none
  | path :: others => do
    match ← readText? path with
    | some text => return some text
    | none => readFirst? others

/-- Reads what is asked for. Only the first file that can be read counts, even if it names nothing. -/
def read (selector : Selector) : Effect Selection := do
  match selector.override with
  | some name =>
    World.report [.backendRequested name selectionVariable]
    return .explicit name
  | none =>
    -- The second file is only read if the first cannot be.
    let text? ← readFirst? (selector.userFile.toList ++ selector.systemFile.toList)
    return match text?.bind firstName? with
      | some name => .preferred name
      | none => .default

/-- The name of the backend to use among those of some names. -/
def select (selector : Selector) (names : List String) : Effect String := do
  let selected := (← selector.read).resolve names
  World.report [.backendSelected selected]
  return selected

end Selector

end ConfigStore
