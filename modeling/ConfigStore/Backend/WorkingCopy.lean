import ConfigStore.Keyfile.Basic

/-! A backend works on its own copy of a store, and remembers whether the copy has changed since it was last
put back. -/

namespace ConfigStore

/-- A store and whether it has changes that were not put back. -/
structure WorkingCopy where
  /-- The store. -/
  store : Keyfile := {}
  /-- Whether there are changes to put back. -/
  dirty : Bool := false
  deriving DecidableEq, Repr

namespace WorkingCopy

/-- Whether a key has a value already. -/
def holds (copy : WorkingCopy) (name key value : String) : Bool :=
  copy.store.get? name key == some value

/-- Gives a key a value, which is a change unless the key has it already. -/
def set (copy : WorkingCopy) (name key value : String) : WorkingCopy :=
  if copy.holds name key value then copy else ⟨copy.store.set name key value, true⟩

/-- Whether a key has any value. -/
def has (copy : WorkingCopy) (name key : String) : Bool :=
  (copy.store.get? name key).isSome

/-- Removes a key, which is a change if it has a value. -/
def remove (copy : WorkingCopy) (name key : String) : WorkingCopy :=
  if copy.has name key then ⟨copy.store.remove name key, true⟩ else copy

/-- The copy once its changes need not be put back any more. -/
def settled (copy : WorkingCopy) : WorkingCopy :=
  { copy with dirty := false }

/-! The store is put back by whatever keeps it, which may fail. -/

variable {m : Type → Type} [Monad m] {ε : Type}

/-- Puts the store back, changed or not. Changes that could not be put back remain to be. -/
def flush (putBack : Keyfile → m (Except ε Unit)) (copy : WorkingCopy) : m (Except ε Unit × WorkingCopy) := do
  match ← putBack copy.store with
  | .ok () => return (.ok (), copy.settled)
  | .error error => return (.error error, copy)

/-- Puts the store back for the last time. Changes that could not be put back are given up. -/
def close (putBack : Keyfile → m (Except ε Unit)) (copy : WorkingCopy) : m (Except ε Unit × WorkingCopy) := do
  return (← putBack copy.store, copy.settled)

/-- Gives up the copy, after one attempt to put changes back. -/
def drop (putBack : Keyfile → m (Except ε Unit)) (copy : WorkingCopy) : m Unit := do
  if copy.dirty then
    let _ ← putBack copy.store

end WorkingCopy

end ConfigStore
