import ConfigStore.Registry.Basic

/-! A registry is built from a list of wanted backends. -/

namespace ConfigStore

/-- The environment variable that names the configuration home. -/
def homeVariable : String := "XDG_CONFIG_HOME"

/-- The configuration home of the platform: an absolute path from the environment, or a fixed directory below
the home directory. -/
def platformHome : Action String := do
  let named := (← World.lookup? homeVariable).filter Path.isAbsolute
  match ← homeDirectory?, named with
  | none, _ =>
    throw (.backend keyfileBackendName "Failed to determine the user's configuration directory")
  | some _, some named => return named
  | some home, none => return Path.join home ".config"

/-- A backend that a registry is to have. -/
inductive WantedBackend where
  /-- The one that keeps domains in keyfiles. -/
  | keyfile
  /-- One that keeps domains in memory, on a shelf of its own. -/
  | memory
  /-- One that there is already. -/
  | factory (factory : Factory)

/-- What a registry is built from. -/
structure RegistryPlan where
  /-- The wanted backends in order. -/
  backends : List WantedBackend := []
  /-- The configuration home, unless it is the platform's. -/
  home : Option String := none
  /-- Where to look for the name of a backend, unless the environment tells. -/
  selector : Option Selector := none

namespace RegistryPlan

/-- The factory of a wanted backend. -/
def factory (plan : RegistryPlan) : WantedBackend → Action Factory
  | .keyfile =>
    match plan.home with
    | some home => return .keyfile home
    | none => return .keyfile (← platformHome)
  | .memory => return .memory (← World.addShelf)
  | .factory factory => return factory

/-- Registers wanted backends in order. -/
def registerAll (plan : RegistryPlan) (registry : Registry) : List WantedBackend → Action Registry
  | [] => return registry
  | wanted :: others => do
    let factory ← plan.factory wanted
    plan.registerAll (← registry.register factory) others

/-- Builds a registry. What is asked for is read once, before anything is registered. -/
def build (plan : RegistryPlan) : Action Registry := do
  let selector ← match plan.selector with
    | some selector => pure selector
    | none => Selector.ofEnvironment
  let selection ← selector.read
  let registry ← plan.registerAll ⟨[], selection⟩ plan.backends
  World.report [.registryBuilt registry.names registry.selected]
  return registry

end RegistryPlan

/-- The registry that only keeps domains in keyfiles, as the environment tells. -/
def defaultRegistry : Action Registry :=
  RegistryPlan.build { backends := [.keyfile] }

end ConfigStore
