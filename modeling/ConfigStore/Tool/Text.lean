import ConfigStore.Registry.Basic

/-! What the command-line tools print. -/

namespace ConfigStore

/-- The name of the program. -/
def programName : String := "mcs"

/-- The number of this version. -/
def versionNumber : String := "0.1.0"

/-- The name of the program and of this version. -/
def versionText : String := s!"{programName}-{versionNumber}"

/-- The version, the selected backend and all backends of a registry. -/
def infoText (registry : Registry) : String :=
  s!"mcs version: {versionText}\n" ++ s!"Selected storage backend: {registry.selected}\n" ++
    "Available backends for mcs configuration storage:\n" ++
    String.join (registry.names.map fun name => s!"   {name}\n")

/-- Keys as the branches of a tree, the last of which has a shape of its own. -/
def branchesText : List String → String
  | [] => ""
  | [last] => s!"  `-- {last}\n"
  | key :: rest => s!"  |-- {key}\n" ++ branchesText rest

/-- Sections and their keys as a tree. -/
def treeTextOf (backend : Backend) : List String → Except ConfigError String
  | [] => return ""
  | name :: rest => do
    let keys ← backend.keys name
    let more ← treeTextOf backend rest
    return name ++ "\n" ++ branchesText keys ++ more

/-- All sections of a backend and their keys as a tree. -/
def treeText (backend : Backend) : Except ConfigError String := do
  treeTextOf backend (← backend.sections)

end ConfigStore
