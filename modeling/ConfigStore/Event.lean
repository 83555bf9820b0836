import ConfigStore.Error
import ConfigStore.Text.Quoted

/-! What the library reports while it works, by what happened. -/

namespace ConfigStore

/-- How much attention an event deserves. -/
inductive EventLevel where
  /-- Something was lost or replaced. -/
  | warn
  /-- A step was taken. -/
  | debug
  /-- A single value changed. -/
  | trace
  deriving DecidableEq, Repr

/-- The name of a level. -/
def EventLevel.name : EventLevel → String
  | .warn => "WARN"
  | .debug => "DEBUG"
  | .trace => "TRACE"

/-- What happened. -/
inductive Event where
  | lineCut (line length limit : Nat)
  | duplicateSection (line : Nat) (name : String)
  | duplicateKey (line : Nat) (key name : String)
  | keyfileMissing (path : String)
  | keyfileOpened (path : String) (sections : Nat)
  | keyfileWritten (path : String)
  | keyfileUnwritten (path : String) (error : ConfigError)
  | valueSet (name key path : String)
  | valueRemoved (name key path : String)
  | memoryOpened (domain : String)
  | queryFailed (backend name key : String) (error : ConfigError)
  | handleClosing (domain backend : String)
  | backendRegistered (name : String)
  | backendReplaced (name : String)
  | backendUnregistered (name : String)
  | domainOpening (domain backend : String)
  | registryBuilt (names : List String) (selected : String)
  | backendRequested (name setting : String)
  | selectionRead (path : String)
  | backendSelected (name : String)
  deriving DecidableEq, Repr

namespace Event

/-- The level of an event. -/
def level : Event → EventLevel
  | .duplicateSection .. => .warn
  | .duplicateKey .. => .warn
  | .keyfileUnwritten .. => .warn
  | .backendReplaced .. => .warn
  | .valueSet .. => .trace
  | .valueRemoved .. => .trace
  | _ => .debug

/-- The wording of an event. -/
def message : Event → String
  | .lineCut line length limit => s!"Line {line} is {length} bytes long, truncating to {limit}"
  | .duplicateSection line name => s!"Line {line}: duplicate section '{name}', ignoring its entries"
  | .duplicateKey line key name =>
    s!"Line {line}: duplicate key '{key}' in section '{name}', keeping the first value"
  | .keyfileMissing path => s!"No keyfile at '{path}', starting empty"
  | .keyfileOpened path sections => s!"Opened keyfile '{path}' with {sections} section(s)"
  | .keyfileWritten path => s!"Wrote keyfile '{path}'"
  | .keyfileUnwritten path error => s!"Failed to write keyfile '{path}': {error.message}"
  | .valueSet name key path => s!"Setting {name}/{key} in '{path}'"
  | .valueRemoved name key path => s!"Removed {name}/{key} from '{path}'"
  | .memoryOpened domain => s!"Opened in-memory domain '{domain}'"
  | .queryFailed backend name key error =>
    s!"Error querying backend '{backend}' for {name}/{key}: {error.message}"
  | .handleClosing domain backend => s!"Closing domain '{domain}' on backend '{backend}'"
  | .backendRegistered name => s!"Registered backend '{name}'"
  | .backendReplaced name => s!"Backend '{name}' registered twice, replacing the earlier one"
  | .backendUnregistered name => s!"Unregistered backend '{name}'"
  | .domainOpening domain backend => s!"Opening domain '{domain}' on backend '{backend}'"
  | .registryBuilt names selected =>
    s!"Built registry with backends {quotedList names}, selected '{selected}'"
  | .backendRequested name setting => s!"Backend '{name}' requested by {setting}"
  | .selectionRead path => s!"Reading backend selection from '{path}'"
  | .backendSelected name => s!"Selected backend '{name}'"

/-- An event as one line, its level first. -/
def line (event : Event) : String :=
  event.level.name ++ " " ++ event.message

end Event

end ConfigStore
