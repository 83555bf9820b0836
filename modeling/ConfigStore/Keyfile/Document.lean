import ConfigStore.Keyfile.Basic

/-! Keyfiles, sections and entries are read from documents: records whose fields are known by name, or lists
of just those fields in order. -/

namespace ConfigStore

/-- A document of nested lists and records. -/
inductive Document where
  | text (value : String)
  | list (items : List Document)
  | record (fields : List (String × Document))
  /-- Something that is none of these. -/
  | other
  deriving Inhabited

namespace Document

/-- The text that a document is. -/
def text? : Document → Option String
  | .text value => some value
  | _ => none

/-- The items that a document lists. -/
def list? : Document → Option (List Document)
  | .list items => some items
  | _ => none

/-- The fields of some names, in a record or in a list of just so many. -/
def fields? (names : List String) : Document → Option (List Document)
  | .list items => if items.length = names.length then some items else none
  | .record fields => names.mapM fun name => fields.lookup name
  | _ => none

end Document

/-- The entry that a document describes. -/
def Entry.ofDocument? (document : Document) : Option Entry := do
  match ← document.fields? ["key", "value"] with
  | [key, value] => return ⟨← key.text?, ← value.text?⟩
  | _ => none

/-- The section that a document describes. -/
def Section.ofDocument? (document : Document) : Option Section := do
  match ← document.fields? ["name", "entries"] with
  | [name, entries] => return ⟨← name.text?, ← (← entries.list?).mapM Entry.ofDocument?⟩
  | _ => none

/-- The keyfile that a document describes. -/
def Keyfile.ofDocument? (document : Document) : Option Keyfile := do
  match ← document.fields? ["sections"] with
  | [sections] => return ⟨← (← sections.list?).mapM Section.ofDocument?⟩
  | _ => none

end ConfigStore
