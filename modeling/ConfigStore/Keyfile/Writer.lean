import ConfigStore.Error
import ConfigStore.Keyfile.Basic
import ConfigStore.Text.Utf8

/-! A keyfile is written as text, whole or piece by piece into a sink that may take a part of a piece and may
fail. Empty sections are left out, and an empty line stands between sections. -/

namespace ConfigStore

/-- An entry's line. -/
def Entry.render (entry : Entry) : String :=
  entry.key ++ "=" ++ entry.value ++ "\n"

/-- A section's header and its entries. -/
def Section.render (part : Section) : String :=
  "[" ++ part.name ++ "]\n" ++ String.join (part.entries.map Entry.render)

/-- Adds sections to a text, each with an empty line in front of it unless it is the first of the text. -/
def renderOnto (written : String) : List Section → String
  | [] => written
  | part :: rest =>
    if part.entries.isEmpty then renderOnto written rest
    -- The text so far ends in a newline, so one more makes an empty line.
    else renderOnto ((if written.isEmpty then written else written ++ "\n") ++ part.render) rest

/-- The text of a keyfile. -/
def Keyfile.render (store : Keyfile) : String :=
  renderOnto "" store.sections

/-- Something that takes bytes. -/
structure Sink where
  /-- The bytes taken so far. -/
  taken : List UInt8 := []
  /-- How many more it takes before it fails, if not all. -/
  room : Option Nat := none
  /-- How many bytes the next writes take at most, one number for each write. -/
  strides : List Nat := []
  /-- The fault for want of room. -/
  fullFault : FileFault := .stream "write failed"
  /-- Whether it fails when it is asked to finish. -/
  failsAtEnd : Bool := false
  /-- The fault when it cannot finish. -/
  endFault : FileFault := .stream "flush failed"
  deriving DecidableEq, Repr

namespace Sink

/-- How many of some bytes the next write takes: at least one, unless there is no room. -/
def share (sink : Sink) (offered : Nat) : Nat :=
  let most := match sink.strides with
    | [] => offered
    | stride :: _ => min offered (max 1 stride)
  match sink.room with
  | none => most
  | some room => min most room

/-- The sink after a write that takes some bytes. -/
def accept (sink : Sink) (bytes : List UInt8) : Sink :=
  { sink with
    taken := sink.taken ++ bytes
    room := sink.room.map (· - bytes.length)
    strides := sink.strides.tail }

/-- Writes all of some bytes, by as many writes as that takes. -/
def writeAll (sink : Sink) (bytes : List UInt8) : Except FileFault Unit × Sink :=
  match bytes with
  | [] => (.ok (), sink)
  | byte :: rest =>
    let share := sink.share (rest.length + 1)
    -- A sink that takes nothing of something is full.
    if share = 0 then (.error sink.fullFault, sink)
    else writeAll (sink.accept ((byte :: rest).take share)) ((byte :: rest).drop share)
  termination_by bytes.length
  decreasing_by
    simp only [List.length_drop, List.length_cons]
    omega

/-- Writes texts one after the other until one fails. -/
def writeTexts (sink : Sink) : List String → Except FileFault Unit × Sink
  | [] => (.ok (), sink)
  | text :: rest =>
    match sink.writeAll (Utf8.encode text) with
    | (.ok (), next) => next.writeTexts rest
    | (.error fault, next) => (.error fault, next)

end Sink

/-- The pieces in which a section is written. -/
def Section.texts (part : Section) : List String :=
  ["[", part.name, "]\n"] ++ part.entries.flatMap fun entry => [entry.key, "=", entry.value, "\n"]

/-- The pieces in which sections are written, given whether any was written before. -/
def sectionTexts (first : Bool) : List Section → List String
  | [] => []
  | part :: rest =>
    -- An empty section leaves no trace, so it does not count as written.
    if part.entries.isEmpty then sectionTexts first rest
    else (if first then [] else ["\n"]) ++ part.texts ++ sectionTexts false rest

/-- Writes a keyfile into a sink and finishes it. -/
def Keyfile.write (store : Keyfile) (sink : Sink) : Except FileFault Unit × Sink :=
  match sink.writeTexts (sectionTexts true store.sections) with
  | (.error fault, next) => (.error fault, next)
  | (.ok (), next) => (if next.failsAtEnd then .error next.endFault else .ok (), next)

/-- Writes a keyfile into a sink that has no path, so that its fault is that of a stream. -/
def Keyfile.writeStream (store : Keyfile) (sink : Sink) : Except ConfigError Unit × Sink :=
  let (result, next) := store.write sink
  (result.mapError .stream, next)

end ConfigStore
