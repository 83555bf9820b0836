import ConfigStore.Registry.Builder
import ConfigStore.Tool.Arguments
import ConfigStore.Tool.Text

/-! The command-line tools: what they do, what they print and how they end. -/

namespace ConfigStore

/-- A tool. -/
inductive Tool where
  | info
  | setValue
  | getValue
  | walk
  deriving DecidableEq, Repr

/-- How a tool ended and what it printed. -/
structure Outcome where
  /-- The exit code. -/
  code : Nat
  /-- What was printed. -/
  output : String := ""
  /-- The line for the error stream, if there is one. -/
  complaint : Option String := none
  deriving DecidableEq, Repr

namespace Tool

/-- The name of a tool without that of the program. -/
def shortName : Tool → String
  | .info => "info"
  | .setValue => "setconfval"
  | .getValue => "getconfval"
  | .walk => "walk-config"

/-- The tool of a name. -/
def ofName? (name : String) : Option Tool :=
  [info, setValue, getValue, walk].find? fun tool => tool.shortName == name

/-- The name of a tool. -/
def name (tool : Tool) : String :=
  s!"{programName}-{tool.shortName}"

/-- What the names that a tool needs stand for. -/
def parameters : Tool → List String
  | .info => []
  | .setValue => ["DOMAIN", "SECTION", "KEY", "VALUE"]
  | .getValue => ["DOMAIN", "SECTION", "KEY"]
  | .walk => ["DOMAIN"]

/-- How a tool is called. -/
def usage (tool : Tool) : String :=
  "Usage: " ++ " ".intercalate (tool.name :: tool.parameters.map fun name => s!"<{name}>") ++ "\n"

/-- The end of a tool that met an error. -/
def failed (tool : Tool) (code : Nat) (output : String) (error : ConfigError) : Outcome :=
  ⟨code, output, some s!"{tool.name}: {error.message}"⟩

/-- Opens a domain as the environment tells. -/
def openDomain (domain : String) : Action Handle := do
  (← defaultRegistry).openDomain domain

/-- Shows the backends. -/
def runInfo : Effect Outcome := do
  match ← defaultRegistry.run with
  | .ok registry => return { code := 0, output := infoText registry }
  | .error error => return Tool.info.failed 1 "" error

/-- Gives a key a value, and shows it before it is written. -/
def runSet (domain name key value : String) : Effect Outcome := do
  let opened : Action Handle := do
    let handle ← openDomain domain
    return { handle with backend := ← handle.backend.setText name key value }
  match ← opened.run with
  | .error error => return Tool.setValue.failed 1 "" error
  | .ok handle =>
    -- What was set is shown even if it cannot be written.
    let output := s!"{name}/{key} => {value}\n"
    match ← handle.close.run with
    | .ok () => return { code := 0, output }
    | .error error => return Tool.setValue.failed 1 output error

/-- Shows the value of a key. A value that is absent ends the tool in silence. -/
def runGet (domain name key : String) : Effect Outcome := do
  let value : Action String := do
    (← openDomain domain).backend.getText name key
  match ← value.run with
  | .ok text => return { code := 0, output := text ++ "\n" }
  | .error error => return if error.isAbsent then { code := 1 } else Tool.getValue.failed 2 "" error

/-- Shows all sections and keys of a domain. -/
def runWalk (domain : String) : Effect Outcome := do
  let tree : Action String := do
    treeText (← openDomain domain).backend
  match ← tree.run with
  | .ok text => return { code := 0, output := text }
  | .error error => return Tool.walk.failed 1 "" error

/-- Runs a tool with as many names as it needs. -/
def runNames : Tool → List String → Effect Outcome
  | .info, [] => runInfo
  | .setValue, [domain, name, key, value] => runSet domain name key value
  | .getValue, [domain, name, key] => runGet domain name key
  | .walk, [domain] => runWalk domain
  | _, _ => return { code := 2 }

/-- Runs a tool. -/
def run (tool : Tool) (arguments : List String) : Effect Outcome :=
  match Arguments.read tool.parameters.length [] true arguments with
  | .complete names => tool.runNames names
  | .version => return { code := 0, output := s!"{tool.name} {versionNumber}\n" }
  | .help => return { code := 0, output := tool.usage }
  | .refused => return { code := 2 }

end Tool

end ConfigStore
