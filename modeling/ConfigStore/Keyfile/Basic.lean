import ConfigStore.FirstMatch
import ConfigStore.Text.Case

/-! A keyfile is an ordered list of sections, and a section an ordered list of entries. Names are matched
without regard to ASCII case and keep the spelling they were first given. -/

namespace ConfigStore

/-- A key and its value. -/
structure Entry where
  /-- The key as first spelled. -/
  key : String
  /-- The value. -/
  value : String
  deriving DecidableEq, Repr

/-- A named list of entries. -/
structure Section where
  /-- The name as first spelled. -/
  name : String
  /-- The entries in the order of their arrival. -/
  entries : List Entry := []
  deriving DecidableEq, Repr

/-- A list of sections. -/
structure Keyfile where
  /-- The sections in the order of their arrival. -/
  sections : List Section := []
  deriving DecidableEq, Repr

namespace Entry

/-- Whether an entry has a key. -/
def hasKey (key : String) (entry : Entry) : Bool :=
  sameName entry.key key

end Entry

namespace Section

/-- Whether a section has a name. -/
def hasName (name : String) (part : Section) : Bool :=
  sameName part.name name

/-- The first entry with a key. -/
def find? (part : Section) (key : String) : Option Entry :=
  part.entries.find? (Entry.hasKey key)

/-- The value of the first entry with a key. -/
def get? (part : Section) (key : String) : Option String :=
  (part.find? key).map Entry.value

/-- Whether there is an entry with a key. -/
def contains (part : Section) (key : String) : Bool :=
  part.entries.any (Entry.hasKey key)

/-- Adds an entry at the end, unless there is one with its key. -/
def insertNew? (part : Section) (key value : String) : Option Section :=
  if part.contains key then none else some { part with entries := part.entries ++ [⟨key, value⟩] }

/-- Gives a key a value, at its old place and spelling if it has one and at the end otherwise. -/
def set (part : Section) (key value : String) : Section :=
  { part with
    entries := upsert (Entry.hasKey key) (fun entry => { entry with value }) ⟨key, value⟩ part.entries }

/-- Removes the first entry with a key. -/
def remove (part : Section) (key : String) : Section :=
  { part with entries := part.entries.eraseP (Entry.hasKey key) }

/-- Takes the first entry with a key out of a section, and tells its value. -/
def withdraw (part : Section) (key : String) : Option String × Section :=
  match part.entries.findIdx? (Entry.hasKey key) with
  | none => (none, part)
  | some index => (part.entries[index]?.map Entry.value, { part with entries := part.entries.eraseIdx index })

/-- The keys in order. -/
def keys (part : Section) : List String :=
  part.entries.map Entry.key

end Section

namespace Keyfile

/-- A keyfile without sections. -/
def empty : Keyfile := {}

/-- The first section with a name. -/
def section? (store : Keyfile) (name : String) : Option Section :=
  store.sections.find? (Section.hasName name)

/-- Whether there is a section with a name. -/
def contains (store : Keyfile) (name : String) : Bool :=
  store.sections.any (Section.hasName name)

/-- Adds an empty section at the end and tells its index, unless there is one with its name. -/
def pushSection? (store : Keyfile) (name : String) : Option (Keyfile × Nat) :=
  if store.contains name then none
  else some (⟨store.sections ++ [⟨name, []⟩]⟩, store.sections.length)

/-- The section at an index. -/
def sectionAt? (store : Keyfile) (index : Nat) : Option Section :=
  store.sections[index]?

/-- Changes the section at an index. -/
def changeSectionAt (store : Keyfile) (index : Nat) (change : Section → Section) : Keyfile :=
  ⟨store.sections.modify index change⟩

/-- Changes the first section with a name. -/
def changeSection (store : Keyfile) (name : String) (change : Section → Section) : Keyfile :=
  ⟨changeFirst (Section.hasName name) change store.sections⟩

/-- The value of a key in the first section with a name. -/
def get? (store : Keyfile) (name key : String) : Option String :=
  (store.section? name).bind (·.get? key)

/-- Gives a key in a section a value, adding the section at the end if there is none of its name. -/
def set (store : Keyfile) (name key value : String) : Keyfile :=
  ⟨upsert (Section.hasName name) (·.set key value) ⟨name, [⟨key, value⟩]⟩ store.sections⟩

/-- Removes a key from a section, which stays even when it becomes empty. -/
def remove (store : Keyfile) (name key : String) : Keyfile :=
  store.changeSection name (·.remove key)

/-- Takes a key out of the first section with a name, and tells its value. -/
def withdraw (store : Keyfile) (name key : String) : Option String × Keyfile :=
  match store.section? name with
  | none => (none, store)
  | some part =>
    let (value, rest) := part.withdraw key
    (value, store.changeSection name fun _ => rest)

/-- Gives a key a value, or removes it for want of one. -/
def setOrRemove (store : Keyfile) (name key : String) : Option String → Keyfile
  | some value => store.set name key value
  | none => store.remove name key

/-- The names of all sections in order. -/
def sectionNames (store : Keyfile) : List String :=
  store.sections.map Section.name

/-- The keys of the first section with a name, in order. -/
def keys? (store : Keyfile) (name : String) : Option (List String) :=
  (store.section? name).map Section.keys

/-- A keyfile without its empty sections. -/
def dropEmpty (store : Keyfile) : Keyfile :=
  ⟨store.sections.filter fun part => !part.entries.isEmpty⟩

end Keyfile

end ConfigStore
