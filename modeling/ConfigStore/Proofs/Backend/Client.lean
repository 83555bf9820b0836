import ConfigStore.Proofs.Backend.LifeCycle
import ConfigStore.Proofs.Backend.Sharing

/-! A client opens its domain as often as it likes, and uses the handles that it gets. What comes of that depends on
what a handle holds, and on whether the store can be put back if it is to be. -/

namespace ConfigStore

/-- What a client does with a handle. -/
inductive ClientDeed where
  | revise (edit : Edit)
  | get (name key : String)
  | has (name key : String)
  | keys (name : String)
  | flush
  | close
  | drop
  deriving DecidableEq, Repr

/-- What a client does next. Handles go by numbers, in the order in which they were asked for. -/
inductive ClientTurn where
  | openDomain
  | use (handle : Nat) (deed : ClientDeed)
  deriving DecidableEq, Repr

/-- The change that is made in a turn, if one is. -/
def ClientTurn.edit? : ClientTurn → Option Edit
  | .use _ (.revise edit) => some edit
  | _ => none

/-- What a client is told. -/
inductive Reply where
  /-- Nothing, since the handle is given up. -/
  | nothing
  /-- Whether something was done. -/
  | done (result : Except ConfigError Unit)
  /-- A value. -/
  | text (result : Except ConfigError String)
  /-- Whether there is a value. -/
  | truth (there : Bool)
  /-- The keys of a section. -/
  | keys (result : Except ConfigError (List String))
  deriving DecidableEq, Repr

namespace ClientDeed

/-- Does something with a backend, which is then held no more if it was given up. -/
def run (backend : Backend) : ClientDeed → Effect (Reply × Option Backend)
  | .revise edit => do
    match ← (backend.setOrUnset edit.name edit.key edit.change).run with
    | .ok changed => return (.done (.ok ()), some changed)
    | .error error => return (.done (.error error), some backend)
  | .get name key => return (.text (backend.getText name key), some backend)
  | .has name key => do
    let there ← backend.has name key
    return (.truth there, some backend)
  | .keys name => return (.keys (backend.keys name), some backend)
  | .flush => do
    let (result, backend) ← backend.flush
    return (.done result, some backend)
  | .close => do
    let (result, backend) ← backend.close
    return (.done result, some backend)
  | .drop => do
    backend.drop
    return (.nothing, none)

/-- Whether the store is put back: that of a handle that is flushed or closed, or given up with changes. -/
def puts (dirty : Bool) : ClientDeed → Bool
  | .flush => true
  | .close => true
  | .drop => dirty
  | _ => false

/-- The store that is put back, if it is. -/
def putBack? (copy : WorkingCopy) (deed : ClientDeed) : Option Keyfile :=
  if deed.puts copy.dirty then some copy.store else none

/-- What the client is told and what is left of the copy, by what came of putting the store back. -/
def outcome (copy : WorkingCopy) (result : Except ConfigError Unit) : ClientDeed → Reply × Option WorkingCopy
  | .revise edit => (.done (.ok ()), some (copy.edit edit))
  | .get name key =>
    (.text (match copy.store.get? name key with
      | some text => .ok text
      | none => .error (.notFound name key)), some copy)
  | .has name key => (.truth (copy.has name key), some copy)
  | .keys name =>
    (.keys (match copy.store.keys? name with
      | some found => .ok found
      | none => .error (.sectionNotFound name)), some copy)
  | .flush =>
    (.done result, some (match result with
      | .ok () => copy.settled
      | .error _ => copy))
  | .close => (.done result, some copy.settled)
  | .drop => (.nothing, none)

end ClientDeed

/-- What a client is told in a turn, and the handles that it has then. Nothing is done with one that is given up. -/
def ClientTurn.run (factory : Factory) (domain : String) (handles : List (Option Backend)) :
    ClientTurn → Effect (Reply × List (Option Backend))
  | .openDomain => do
    match ← (factory.openDomain domain).run with
    | .ok backend => return (.done (.ok ()), handles ++ [some backend])
    | .error error => return (.done (.error error), handles ++ [none])
  | .use handle deed =>
    match handles[handle]?.join with
    | none => return (.nothing, handles)
    | some backend => do
      let (reply, left) ← deed.run backend
      return (reply, handles.set handle left)

/-- What comes of writing a store to a path, if there is one to be written. -/
def World.writing (path : String) (world : World) : Option Keyfile → Except ConfigError Unit × World
  | none => (.ok (), world)
  | some store => (writeKeyfile store path).after world

namespace ClientDeed

variable (deed : ClientDeed)

/-- What comes of a deed on a shelf, where anything can be put back. -/
theorem run_memory (shelf : Nat) (domain : String) (copy : WorkingCopy) (world : World) :
    (deed.run (.memory shelf domain copy)).run world =
      (((deed.outcome copy (.ok ())).1, (deed.outcome copy (.ok ())).2.map (.memory shelf domain)),
        world.keeping shelf domain (deed.putBack? copy)) := by
  cases deed with
  | revise edit =>
    have made := Backend.setOrUnset_memory shelf domain copy edit world
    rw [Action.after] at made
    rw [run, Effect.run_bind, made]
    rfl
  | get name key =>
    rw [run, Backend.getText_of_able rfl]
    rfl
  | has name key =>
    rw [run, Effect.run_bind, Backend.has_of_able rfl]
    rfl
  | keys name =>
    rw [run, Backend.keys_of_able rfl]
    rfl
  | flush => rfl
  | close => rfl
  | drop =>
    -- Only changes are put back.
    obtain ⟨store, dirty⟩ := copy
    cases dirty with
    | true => rfl
    | false => rfl

/-- What comes of a deed with a keyfile, by what comes of writing the store if it is to be put back. More may be reported
than that. -/
theorem run_keyfile (path : String) (copy : WorkingCopy) (world : World) :
    ∃ later, (deed.run (.keyfile path copy)).run world =
        (((deed.outcome copy (world.writing path (deed.putBack? copy)).1).1,
          (deed.outcome copy (world.writing path (deed.putBack? copy)).1).2.map (.keyfile path)), later) ∧
      later.files = (world.writing path (deed.putBack? copy)).2.files ∧
      (world.writing path (deed.putBack? copy)).2.events <+: later.events := by
  cases deed with
  | revise edit =>
    obtain ⟨events, made⟩ := Backend.setOrUnset_after path copy edit world
    rw [Action.after] at made
    refine ⟨{ world with events := world.events ++ events }, ?_, rfl, List.prefix_append ..⟩
    rw [run, Effect.run_bind, made]
    rfl
  | get name key =>
    refine ⟨world, ?_, rfl, List.prefix_rfl⟩
    rw [run, Backend.getText_of_able rfl]
    rfl
  | has name key =>
    refine ⟨world, ?_, rfl, List.prefix_rfl⟩
    rw [run, Effect.run_bind, Backend.has_of_able rfl]
    rfl
  | keys name =>
    refine ⟨world, ?_, rfl, List.prefix_rfl⟩
    rw [run, Backend.keys_of_able rfl]
    rfl
  | flush =>
    refine ⟨_, ?_, rfl, List.prefix_rfl⟩
    simp only [run, Backend.flush, WorkingCopy.flush, Effect.run_bind, World.writing, putBack?, puts, if_true,
      Action.after]
    cases (World.writeKeyfile copy.store path).run.run world with
    | mk result later =>
      cases result with
      | ok done => rfl
      | error error => rfl
  | close => exact ⟨_, rfl, rfl, List.prefix_rfl⟩
  | drop =>
    refine ⟨_, ?_, rfl, List.prefix_rfl⟩
    obtain ⟨store, dirty⟩ := copy
    cases dirty with
    | true => rfl
    | false => rfl

end ClientDeed

namespace ClientTurn

variable {handles : List (Option Backend)} {handle : Nat}

/-- A domain that is opened is held, and one that is not leaves a handle that is of no use. -/
theorem run_openDomain (factory : Factory) (domain : String) (handles : List (Option Backend)) (world : World) :
    (openDomain.run factory domain handles).run world =
      match (factory.openDomain domain).after world with
      | (.ok backend, opened) => ((.done (.ok ()), handles ++ [some backend]), opened)
      | (.error error, failed) => ((.done (.error error), handles ++ [none]), failed) := by
  rw [run, Effect.run_bind, Action.after]
  cases (factory.openDomain domain).run.run world with
  | mk result later =>
    cases result with
    | ok backend => rfl
    | error error => rfl

/-- A handle that was given up is of no use. -/
theorem run_use_of_gone (gone : handles[handle]?.join = none) (factory : Factory) (domain : String) (deed : ClientDeed)
    (world : World) : ((use handle deed).run factory domain handles).run world = ((.nothing, handles), world) := by
  rw [run, gone]
  rfl

/-- A handle that is used holds what is left. -/
theorem run_use {backend : Backend} (held : handles[handle]?.join = some backend) (factory : Factory) (domain : String)
    (deed : ClientDeed) (world : World) :
    ((use handle deed).run factory domain handles).run world =
      ((((deed.run backend).run world).1.1, handles.set handle ((deed.run backend).run world).1.2),
        ((deed.run backend).run world).2) := by
  rw [run, held]
  rfl

end ClientTurn

end ConfigStore
