import ConfigStore.Backend.WorkingCopy
import ConfigStore.World

/-! A backend serves the settings of one domain. It keeps them in a keyfile or on a shelf in memory; a third
kind fails where it is told to. -/

namespace ConfigStore

/-- The name of the backend that keeps domains in keyfiles. -/
def keyfileBackendName : String := "default"

/-- The name of the backend that keeps domains in memory. -/
def memoryBackendName : String := "memory"

/-- What a backend can be asked for. -/
inductive BackendTask where
  | openDomain
  | get
  | set
  | unset
  | sections
  | keys
  | flush
  deriving DecidableEq, Repr

/-- The name of a task in messages. -/
def BackendTask.name : BackendTask → String
  | .openDomain => "open"
  | .get => "get"
  | .set => "set"
  | .unset => "unset"
  | .sections => "sections"
  | .keys => "keys"
  | .flush => "flush"

/-- A name under which tasks fail. -/
structure Faults where
  /-- The name of the backend. -/
  name : String
  /-- The tasks that fail. -/
  tasks : List BackendTask := []
  deriving DecidableEq, Repr

/-- Fails if a task is to fail. -/
def Faults.check (faults : Faults) (task : BackendTask) : Except ConfigError Unit :=
  if faults.tasks.contains task then .error (.backend faults.name s!"{task.name} failed") else .ok ()

/-- An opened domain. -/
inductive Backend where
  /-- A domain kept in the keyfile at a path. -/
  | keyfile (path : String) (copy : WorkingCopy)
  /-- A domain kept on a shelf. -/
  | memory (shelf : Nat) (domain : String) (copy : WorkingCopy)
  /-- A domain kept nowhere, some tasks of which fail. -/
  | faulty (faults : Faults) (store : Keyfile)
  deriving DecidableEq, Repr

namespace Backend

/-- The name of a backend. -/
def name : Backend → String
  | .keyfile .. => keyfileBackendName
  | .memory .. => memoryBackendName
  | .faulty faults _ => faults.name

/-- The store that a backend works on. -/
def store : Backend → Keyfile
  | .keyfile _ copy => copy.store
  | .memory _ _ copy => copy.store
  | .faulty _ store => store

/-- Fails if a task is to fail. -/
def check (backend : Backend) (task : BackendTask) : Except ConfigError Unit :=
  match backend with
  | .faulty faults _ => faults.check task
  | _ => .ok ()

/-- The text of a value. -/
def getText (backend : Backend) (name key : String) : Except ConfigError String := do
  backend.check .get
  match backend.store.get? name key with
  | some text => return text
  | none => throw (.notFound name key)

/-- A value, to be read as whatever is wanted. -/
def getValue (backend : Backend) (name key : String) : Except ConfigError Value :=
  (backend.getText name key).map Value.mk

/-- The names of the sections. -/
def sections (backend : Backend) : Except ConfigError (List String) := do
  backend.check .sections
  return backend.store.sectionNames

/-- The keys of a section. -/
def keys (backend : Backend) (name : String) : Except ConfigError (List String) := do
  backend.check .keys
  match backend.store.keys? name with
  | some keys => return keys
  | none => throw (.sectionNotFound name)

/-- Whether a key has a value. A backend that cannot tell has none, and reports why. -/
def has (backend : Backend) (name key : String) : Effect Bool :=
  match backend.getText name key with
  | .ok _ => return true
  -- Absence is an answer, and any other error is not.
  | .error (.notFound ..) => return false
  | .error error => do
    World.report [.queryFailed backend.name name key error]
    return false

/-- Gives a key a value. -/
def setText (backend : Backend) (name key text : String) : Action Backend := do
  backend.check .set
  match backend with
  | .keyfile path copy =>
    if !copy.holds name key text then World.report [.valueSet name key path]
    return .keyfile path (copy.set name key text)
  | .memory shelf domain copy => return .memory shelf domain (copy.set name key text)
  | .faulty faults store => return .faulty faults (store.set name key text)

/-- Gives a key the text of a value. -/
def setValue (backend : Backend) (name key : String) (value : Value) : Action Backend :=
  backend.setText name key value.text

/-- Removes a key, whether or not it has a value. -/
def unset (backend : Backend) (name key : String) : Action Backend := do
  backend.check .unset
  match backend with
  | .keyfile path copy =>
    if copy.has name key then World.report [.valueRemoved name key path]
    return .keyfile path (copy.remove name key)
  | .memory shelf domain copy => return .memory shelf domain (copy.remove name key)
  | .faulty faults store => return .faulty faults (store.remove name key)

/-- Gives a key a value, or removes it for want of one. -/
def setOrUnset (backend : Backend) (name key : String) : Option String → Action Backend
  | some text => backend.setText name key text
  | none => backend.unset name key

/-- Puts the store back, changed or not. -/
def flush : Backend → Effect (Except ConfigError Unit × Backend)
  | .keyfile path copy => do
    let (result, copy) ← copy.flush fun store => (World.writeKeyfile store path).run
    return (result, .keyfile path copy)
  | .memory shelf domain copy => do
    let (result, copy) ← copy.flush (World.putOnShelf shelf domain)
    return (result, .memory shelf domain copy)
  | .faulty faults store => return (faults.check .flush, .faulty faults store)

/-- Puts the store back for the last time. -/
def close : Backend → Effect (Except ConfigError Unit × Backend)
  | .keyfile path copy => do
    let (result, copy) ← copy.close fun store => (World.writeKeyfile store path).run
    return (result, .keyfile path copy)
  | .memory shelf domain copy => do
    let (result, copy) ← copy.close (World.putOnShelf shelf domain)
    return (result, .memory shelf domain copy)
  | .faulty faults store => return (faults.check .flush, .faulty faults store)

/-- Gives up a backend, after an attempt to put changes back. -/
def drop : Backend → Effect Unit
  | .keyfile path copy => copy.drop fun store => (World.writeKeyfile store path).run
  | .memory shelf domain copy => copy.drop (World.putOnShelf shelf domain)
  | .faulty .. => return ()

/-- Opens the keyfile at a path. -/
def openKeyfile (path : String) : Action Backend := do
  let store ← World.openKeyfile path
  World.report [.keyfileOpened path store.sections.length]
  return .keyfile path ⟨store, false⟩

/-- Opens a domain on a new shelf of its own. -/
def newMemory (domain : String) : Effect Backend := do
  return .memory (← World.addShelf) domain {}

end Backend

end ConfigStore
