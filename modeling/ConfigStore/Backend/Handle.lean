import ConfigStore.Backend.Basic

/-! A handle is a backend together with the name of the domain that it was opened for. -/

namespace ConfigStore

/-- An opened domain and its name. -/
structure Handle where
  domain : String
  backend : Backend
  deriving DecidableEq, Repr

namespace Handle

/-- Puts the store back and gives up the handle. -/
def close (handle : Handle) : Action Unit := do
  World.report [.handleClosing handle.domain handle.backend.name]
  let (result, backend) ← handle.backend.close
  backend.drop
  result

/-- A handle in diagnostics. -/
def describe (handle : Handle) : String :=
  s!"ConfigHandle \x7b domain: {quoted handle.domain}, backend: {quoted handle.backend.name} \x7d"

end Handle

end ConfigStore
