import ConfigStore.Keyfile.File

/-! What a running program can see and change outside its own values: files and what is met in replacing them, the
environment, the shelves that hold domains in memory, and the events reported so far. -/

namespace ConfigStore

/-- Domains that are kept in memory. -/
structure Shelf where
  /-- The domains by their exact names. -/
  domains : List (String × Keyfile) := []
  deriving DecidableEq, Repr

namespace Shelf

/-- A shelf without domains. -/
def empty : Shelf := {}

/-- What is kept for a domain. -/
def get? (shelf : Shelf) (domain : String) : Option Keyfile :=
  shelf.domains.lookup domain

/-- Keeps a store for a domain, in place of what was kept. -/
def keep (shelf : Shelf) (domain : String) (store : Keyfile) : Shelf :=
  ⟨upsert (·.1 == domain) (fun _ => (domain, store)) (domain, store) shelf.domains⟩

end Shelf

/-- The surroundings of a running program. -/
structure World where
  /-- The files. -/
  files : FileSystem := {}
  /-- The environment variables. -/
  environment : List (String × String) := []
  /-- The home directory in the user's account, if there is one. -/
  accountHome : Option String := none
  /-- The shelves, by number. -/
  shelves : List Shelf := []
  /-- What the next replacements of files meet, one after the other. Nothing goes wrong behind the last one. -/
  conditions : List Conditions := []
  /-- The events so far. -/
  events : List Event := []
  deriving DecidableEq, Repr

/-- What always comes to a result. -/
abbrev Effect := StateM World

/-- What comes to a result or an error. Changes to the surroundings stay in both cases. -/
abbrev Action := ExceptT ConfigError Effect

namespace World

/-- Reports events. -/
def report (events : List Event) : Effect Unit :=
  modify fun world => { world with events := world.events ++ events }

/-- The value of an environment variable. -/
def lookup? (name : String) : Effect (Option String) := do
  return (← get).environment.lookup name

/-- Adds an empty shelf and tells its number. -/
def addShelf : Effect Nat := do
  let world ← get
  set { world with shelves := world.shelves ++ [Shelf.empty] }
  return world.shelves.length

/-- What a shelf keeps for a domain. -/
def shelved? (shelf : Nat) (domain : String) : Effect (Option Keyfile) := do
  return (← get).shelves[shelf]?.bind (·.get? domain)

/-- Keeps a store on a shelf for a domain, which cannot fail. -/
def putOnShelf (shelf : Nat) (domain : String) (store : Keyfile) : Effect (Except ConfigError Unit) := do
  modify fun world => { world with shelves := world.shelves.modify shelf (·.keep domain store) }
  return .ok ()

/-- What the next replacement of a file meets. -/
def met (world : World) : Conditions :=
  world.conditions.headD {}

/-- Loads the keyfile at a path. -/
def openKeyfile (path : String) : Action Keyfile := do
  let (result, events) := ConfigStore.openKeyfile (← get).files path
  report events
  result

/-- Writes a keyfile to a path. -/
def writeKeyfile (store : Keyfile) (path : String) : Action Unit := do
  let world ← get
  let (result, files, events) := ConfigStore.writeKeyfile world.files store path world.met
  modify fun world => { world with files, conditions := world.conditions.tail }
  report events
  result

/-- Creates the directory of a domain and tells the path of its settings file. -/
def ensureDomain (home domain : String) : Action String := do
  let directory ← (domainDirectory home domain).mapError (ConfigError.invalidDomain domain)
  let (result, files) := (← get).files.ensureDirectories directory
  modify fun world => { world with files }
  let _ ← result.mapError (ConfigError.file directory)
  return Path.join directory configFileName

end World

end ConfigStore
