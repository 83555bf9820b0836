import ConfigStore.Backend.Basic

/-! A factory opens domains on one kind of backend. Anything that has a name and opens domains is one, and what it answers
is its own affair. Two kinds come with the library, and a third one fails where it is told to. -/

namespace ConfigStore

/-- What opens domains. -/
structure Factory where
  /-- The name under which it is selected. -/
  name : String
  /-- Opens a domain with what is kept for it. -/
  openDomain : String → Action Backend

namespace Factory

/-- Opens domains in keyfiles below a configuration home. -/
def keyfile (home : String) : Factory where
  name := keyfileBackendName
  openDomain domain := do Backend.openKeyfile (← World.ensureDomain home domain)

/-- Opens domains on a shelf. -/
def memory (shelf : Nat) : Factory where
  name := memoryBackendName
  openDomain domain := do
    let store := (← World.shelved? shelf domain).getD {}
    World.report [.memoryOpened domain]
    return .memory shelf domain ⟨store, false⟩

/-- The store with which a faulty domain starts: who opened it, and for which domain. -/
def faultyStore (name domain : String) : Keyfile :=
  (Keyfile.empty.set "mock" "factory" name).set "mock" "domain" domain

/-- Opens domains that are kept nowhere, some tasks of which fail. -/
def faulty (faults : Faults) : Factory where
  name := faults.name
  openDomain domain := do
    faults.check .openDomain
    return .faulty faults (faultyStore faults.name domain)

/-- A domain in a keyfile has a directory before it is opened. -/
theorem openDomain_keyfile (home domain : String) : (keyfile home).openDomain domain =
    (do Backend.openKeyfile (← World.ensureDomain home domain)) :=
  rfl

/-- A faulty domain is opened unless that is told to fail. -/
theorem openDomain_faulty (faults : Faults) (domain : String) : (faulty faults).openDomain domain = (do
    faults.check .openDomain
    return .faulty faults (faultyStore faults.name domain)) :=
  rfl

/-- The backend for keyfiles is the default. -/
theorem name_keyfile (home : String) : (keyfile home).name = keyfileBackendName :=
  rfl

end Factory

end ConfigStore
