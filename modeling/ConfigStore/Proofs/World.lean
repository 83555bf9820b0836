import ConfigStore.World

/-! What actions come to. An action runs step by step, and stops at the first error. -/

namespace ConfigStore

/-- What an action comes to, and the surroundings then. -/
def Action.after {α : Type} (action : Action α) (world : World) : Except ConfigError α × World :=
  action.run.run world

namespace Action

variable {α β : Type}

/-- The next step starts where the one before it came to a result. -/
@[simp] theorem after_bind (action : Action α) (next : α → Action β) (world : World) :
    (action >>= next).after world =
      match action.after world with
      | (.ok value, changed) => (next value).after changed
      | (.error error, changed) => (.error error, changed) := by
  -- An action is a change of the world that comes to a result or an error.
  simp only [after, bind, ExceptT.bind, ExceptT.mk, ExceptT.bindCont, StateT.bind, ExceptT.run, StateT.run]
  cases action world with
  | mk result changed =>
    cases result with
    | ok value => rfl
    | error error => rfl

/-- What comes of a result changes nothing else. -/
@[simp] theorem after_map (change : α → β) (action : Action α) (world : World) :
    (change <$> action).after world = ((action.after world).1.map change, (action.after world).2) := by
  -- The action itself is not changed.
  simp only [after, Functor.map, ExceptT.map, ExceptT.mk, bind, StateT.bind, ExceptT.run, StateT.run]
  cases action world with
  | mk result changed =>
    cases result with
    | ok value => rfl
    | error error => rfl

/-- A value changes nothing. -/
@[simp] theorem after_pure (value : α) (world : World) : (pure value : Action α).after world = (.ok value, world) :=
  rfl

/-- A result changes nothing. -/
@[simp] theorem after_ofExcept (result : Except ConfigError α) (world : World) :
    (liftM result : Action α).after world = (result, world) :=
  rfl

/-- What always comes to a result does so. -/
@[simp] theorem after_ofEffect (effect : Effect α) (world : World) :
    (liftM effect : Action α).after world = (.ok (effect.run world).1, (effect.run world).2) :=
  rfl

/-- Looking at the surroundings leaves them as they are. -/
@[simp] theorem after_get (world : World) : (get : Action World).after world = (.ok world, world) :=
  rfl

/-- The surroundings are changed. -/
@[simp] theorem after_modify (change : World → World) (world : World) :
    (modify change : Action PUnit).after world = (.ok ⟨⟩, change world) :=
  rfl

end Action

/-- What always comes to a result goes on from there. -/
theorem Effect.run_bind {α β : Type} (effect : Effect α) (next : α → Effect β) (world : World) :
    (effect >>= next).run world = (next (effect.run world).1).run (effect.run world).2 :=
  rfl

namespace World

/-- Looking for a variable changes nothing. -/
@[simp] theorem run_lookup? (name : String) (world : World) :
    (lookup? name).run world = (world.environment.lookup name, world) :=
  rfl

/-- Reporting only adds events. -/
@[simp] theorem run_report (events : List Event) (world : World) :
    (report events).run world = ((), { world with events := world.events ++ events }) :=
  rfl

/-- Looking at what a shelf keeps changes nothing. -/
@[simp] theorem run_shelved? (shelf : Nat) (domain : String) (world : World) :
    (shelved? shelf domain).run world = (world.shelves[shelf]?.bind (·.get? domain), world) :=
  rfl

/-- Putting something on a shelf changes that shelf. -/
@[simp] theorem run_putOnShelf (shelf : Nat) (domain : String) (store : Keyfile) (world : World) :
    (putOnShelf shelf domain store).run world =
      (.ok (), { world with shelves := world.shelves.modify shelf (·.keep domain store) }) :=
  rfl

/-- Loading a keyfile changes nothing but the events. -/
theorem openKeyfile_after (path : String) (world : World) :
    (openKeyfile path).after world =
      ((ConfigStore.openKeyfile world.files path).1,
        { world with events := world.events ++ (ConfigStore.openKeyfile world.files path).2 }) := by
  simp [openKeyfile]

/-- Writing a keyfile changes the files as told, adds events, and leaves what is met for the next one. -/
theorem writeKeyfile_after (store : Keyfile) (path : String) (world : World) :
    (writeKeyfile store path).after world =
      ((ConfigStore.writeKeyfile world.files store path world.met).1,
        { world with
          files := (ConfigStore.writeKeyfile world.files store path world.met).2.1
          events := world.events ++ (ConfigStore.writeKeyfile world.files store path world.met).2.2
          conditions := world.conditions.tail }) := by
  simp [writeKeyfile]

/-- The directory of a domain is created, or there is no path of its settings file. -/
theorem ensureDomain_after (home domain : String) (world : World) :
    (ensureDomain home domain).after world =
      match domainDirectory home domain with
      | .error fault => (.error (.invalidDomain domain fault), world)
      | .ok directory =>
        match world.files.ensureDirectories directory with
        | (.error fault, files) => (.error (.file directory fault), { world with files })
        | (.ok (), files) => (.ok (Path.join directory configFileName), { world with files }) := by
  -- A domain without a directory of its own fails before any file is touched.
  rw [ensureDomain, Action.after_bind]
  cases domainDirectory home domain with
  | error fault => rfl
  | ok directory =>
    rw [Action.after_ofExcept]
    show Action.after _ world = _
    simp only [Action.after_bind, Action.after_get, Action.after_modify, Action.after_ofExcept]
    cases world.files.ensureDirectories directory with
    | mk result files =>
      cases result with
      | error fault => rfl
      | ok done => rfl

end World

end ConfigStore
