import ConfigStore.Files.Fault
import ConfigStore.Path.Domain
import ConfigStore.Value.Strict

/-! Everything that can go wrong with a configuration, by cause. -/

namespace ConfigStore

/-- What went wrong. -/
inductive ConfigError where
  /-- A section or a key in it does not exist. -/
  | notFound (name key : String)
  /-- A section does not exist. -/
  | sectionNotFound (name : String)
  /-- A value is not of the wanted type. -/
  | conversion (name key : String) (type : StrictType) (fault : ConversionFault)
  /-- A file or directory could not be used. -/
  | file (path : String) (fault : FileFault)
  /-- A domain names no directory below the configuration home. -/
  | invalidDomain (domain : String) (fault : DomainFault)
  /-- No backend has the wanted name. -/
  | backendNotFound (name : String)
  /-- A backend failed for a reason of its own. -/
  | backend (name reason : String)
  /-- A stream without a path failed. -/
  | stream (fault : FileFault)
  deriving DecidableEq, Repr

namespace ConfigError

/-- The wording of an error. -/
def message : ConfigError → String
  | .notFound name key => s!"Configuration value not found: {name}/{key}"
  | .sectionNotFound name => s!"Configuration section not found: {name}"
  | .conversion name key type fault =>
    s!"Failed to convert configuration value {name}/{key} to type {type.name}: {fault.message}"
  | .file path fault => s!"I/O error on '{path}': {fault.message}"
  | .invalidDomain domain fault => s!"Invalid configuration domain '{domain}': {fault.message}"
  | .backendNotFound name => s!"Configuration backend not found: {name}"
  | .backend name reason => s!"Configuration backend '{name}' error: {reason}"
  | .stream fault => s!"I/O error: {fault.message}"

/-- Whether an error says that what was looked for is absent. -/
def isAbsent : ConfigError → Bool
  | .notFound .. => true
  | .sectionNotFound .. => true
  | _ => false

end ConfigError

end ConfigStore
