import ConfigStore.Event
import ConfigStore.Keyfile.Basic
import ConfigStore.Keyfile.Line
import ConfigStore.Text.Line
import ConfigStore.Text.Utf8

/-! A keyfile is loaded line by line. The first of several sections or keys of a name wins, and what follows a
repeated header is dropped up to the next header. -/

namespace ConfigStore

/-- How many bytes of a line are looked at unless told otherwise. -/
def defaultLineLimit : Nat := 4096

/-- Where the entries of the lines to come belong. -/
inductive Target where
  /-- Nowhere, since no section has begun. -/
  | nowhere
  /-- To the section at an index. -/
  | inside (index : Nat)
  /-- Nowhere, since the section's name had been used. -/
  | discard
  deriving DecidableEq, Repr

/-- What has been loaded so far. -/
structure Loader where
  /-- The sections and entries so far. -/
  store : Keyfile := {}
  /-- Where the next entries belong. -/
  target : Target := .nowhere
  deriving DecidableEq, Repr

namespace Loader

/-- Takes what a line says, and reports what is dropped as a repetition. -/
def take (loader : Loader) (number : Nat) : Line → Loader × List Event
  | .void => (loader, [])
  | .header name =>
    -- A new name opens a section, and a used one closes whatever was open.
    match loader.store.pushSection? name with
    | some (store, index) => (⟨store, .inside index⟩, [])
    | none => ({ loader with target := .discard }, [.duplicateSection number name])
  | .entry key value =>
    -- Only an open section takes entries.
    match loader.target with
    | .nowhere => (loader, [])
    | .discard => (loader, [])
    | .inside index =>
      match loader.store.sectionAt? index with
      | none => (loader, [])
      | some part =>
        match part.insertNew? key value with
        -- The first value of a key stays.
        | none => (loader, [.duplicateKey number key part.name])
        | some grown => ({ loader with store := loader.store.changeSectionAt index fun _ => grown }, [])

/-- Takes lines, of which the first has a number. -/
def takeAll (loader : Loader) (number : Nat) : List (List Char) → Loader × List Event
  | [] => (loader, [])
  | line :: rest =>
    let (next, events) := loader.take number (Line.ofChars line)
    let (last, more) := next.takeAll (number + 1) rest
    (last, events ++ more)

end Loader

namespace Keyfile

/-- Loads a text, whose lines are cut between characters, with what is to be reported. -/
def loadText (limit : Nat) (text : String) : Keyfile × List Event :=
  -- Every line can be cut, so none is lost.
  let lines := (separate '\n' text.toList).filterMap (cutLine? limit)
  let (loader, events) := Loader.takeAll {} 1 lines
  (loader.store, events)

/-- The keyfile that a text spells. -/
def ofText (limit : Nat) (text : String) : Keyfile :=
  (loadText limit text).1

end Keyfile

end ConfigStore
