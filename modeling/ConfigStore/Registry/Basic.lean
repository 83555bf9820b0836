import ConfigStore.Backend.Factory
import ConfigStore.Backend.Handle
import ConfigStore.Registry.Selection

/-! A registry holds factories in the order of their arrival, of which no two have the same name, and opens
domains on the one that is selected. -/

namespace ConfigStore

/-- Factories and what was asked for when the registry was made. -/
structure Registry where
  /-- The factories in order. -/
  factories : List Factory := []
  /-- What was asked for. -/
  selection : Selection := .default

namespace Registry

/-- The names of the factories in order. -/
def names (registry : Registry) : List String :=
  registry.factories.map Factory.name

/-- The factory of a name. -/
def factory? (registry : Registry) (name : String) : Option Factory :=
  registry.factories.find? fun factory => sameName factory.name name

/-- Whether there is a factory of a name. -/
def contains (registry : Registry) (name : String) : Bool :=
  (registry.factory? name).isSome

/-- The registry with a factory in the place of the one of its name, or at the end. -/
def insert (registry : Registry) (factory : Factory) : Registry :=
  { registry with
    factories :=
      upsert (fun other => sameName other.name factory.name) (fun _ => factory) factory registry.factories }

/-- Registers a factory. -/
def register (registry : Registry) (factory : Factory) : Effect Registry := do
  World.report
    [if registry.contains factory.name then .backendReplaced factory.name
     else .backendRegistered factory.name]
  return registry.insert factory

/-- The registry without the factory of a name. -/
def erase (registry : Registry) (name : String) : Registry :=
  { registry with factories := registry.factories.eraseP fun factory => sameName factory.name name }

/-- Takes the factory of a name out. -/
def unregister (registry : Registry) (name : String) : Effect (Option Factory × Registry) := do
  match registry.factory? name with
  | none => return (none, registry)
  | some factory =>
    World.report [.backendUnregistered name]
    return (some factory, registry.erase name)

/-- The registry without factories. -/
def clear (registry : Registry) : Registry :=
  { registry with factories := [] }

/-- The name of the backend on which domains are opened. -/
def selected (registry : Registry) : String :=
  registry.selection.resolve registry.names

/-- Opens a domain on the backend of a name. -/
def openWith (registry : Registry) (name domain : String) : Action Handle := do
  match registry.factory? name with
  | none => throw (.backendNotFound name)
  | some factory =>
    World.report [.domainOpening domain factory.name]
    return ⟨domain, ← factory.openDomain domain⟩

/-- Opens a domain on the selected backend. -/
def openDomain (registry : Registry) (domain : String) : Action Handle :=
  registry.openWith registry.selected domain

/-- A registry in diagnostics. -/
def describe (registry : Registry) : String :=
  s!"BackendRegistry \x7b backends: {quotedList registry.names}, selection: {registry.selection.describe} \x7d"

end Registry

end ConfigStore
