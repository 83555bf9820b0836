import ConfigStore.Backend.Factory
import ConfigStore.Proofs.Backend.Durable
import ConfigStore.Proofs.Keyfile.Reachable

/-! Whatever a program does with the domains that it opens, each of its backends works on a store that comes about by
changes to an empty keyfile or to one that was loaded. So does every store on a shelf. -/

namespace ConfigStore

/-- A running program: its surroundings and the backends that it holds. -/
structure Session where
  /-- The surroundings. -/
  world : World := {}
  /-- The backends in the order of their arrival. -/
  backends : List Backend := []
  deriving DecidableEq, Repr

/-- The factories that a program opens domains with. -/
inductive FactoryKind where
  /-- One for keyfiles below a configuration home. -/
  | keyfile (home : String)
  /-- One for a shelf. -/
  | memory (shelf : Nat)
  /-- One that fails where it is told to. -/
  | faulty (faults : Faults)
  deriving DecidableEq, Repr

/-- The factory of a kind. -/
def FactoryKind.factory : FactoryKind → Factory
  | .keyfile home => .keyfile home
  | .memory shelf => .memory shelf
  | .faulty faults => .faulty faults

/-- What can happen to a running program. -/
inductive Turn where
  /-- Others change the files, the environment or the account. -/
  | elsewhere (files : FileSystem) (environment : List (String × String)) (accountHome : Option String)
  | addShelf
  | openDomain (kind : FactoryKind) (domain : String)
  | openKeyfile (path : String)
  | newMemory (domain : String)
  | setOrUnset (index : Nat) (name key : String) (value : Option String)
  | flush (index : Nat)
  | close (index : Nat)
  | drop (index : Nat)
  deriving DecidableEq, Repr

namespace Session

/-- Holds the backend that an action opens, if it does open one. -/
def hold (session : Session) (action : Action Backend) : Session :=
  match action.after session.world with
  | (.ok backend, world) => ⟨world, session.backends ++ [backend]⟩
  | (.error _, world) => ⟨world, session.backends⟩

/-- Puts what an action makes of a backend in its place, unless the action fails. -/
def change (session : Session) (index : Nat) (action : Backend → Action Backend) : Session :=
  match session.backends[index]? with
  | none => session
  | some backend =>
    match (action backend).after session.world with
    | (.ok changed, world) => ⟨world, session.backends.set index changed⟩
    | (.error _, world) => ⟨world, session.backends⟩

/-- The program after a turn. -/
def next (session : Session) : Turn → Session
  | .elsewhere files environment accountHome =>
    { session with world := { session.world with files, environment, accountHome } }
  | .addShelf => { session with world := (World.addShelf.run session.world).2 }
  | .openDomain kind domain => session.hold (kind.factory.openDomain domain)
  | .openKeyfile path => session.hold (Backend.openKeyfile path)
  | .newMemory domain => session.hold (Backend.newMemory domain)
  | .setOrUnset index name key value => session.change index fun backend => backend.setOrUnset name key value
  | .flush index => session.change index fun backend => Prod.snd <$> backend.flush
  | .close index => session.change index fun backend => Prod.snd <$> backend.close
  | .drop index =>
    match session.backends[index]? with
    | none => session
    | some backend => ⟨(backend.drop.run session.world).2, session.backends.eraseIdx index⟩

end Session

/-- Whatever is kept on a shelf was reached. -/
def World.Sound (world : World) : Prop :=
  ∀ shelf ∈ world.shelves, ∀ kept ∈ shelf.domains, kept.2.Reachable

/-- An action leaves on the shelves what was reached, and what it comes to is good. -/
def Action.Keeps {α : Type} (action : Action α) (good : α → Prop) : Prop :=
  ∀ world : World, world.Sound →
    (action.after world).2.Sound ∧ ∀ value, (action.after world).1 = .ok value → good value

namespace Action.Keeps

variable {α β : Type} {good : α → Prop} {better : β → Prop}

/-- A good value is kept. -/
theorem pure {value : α} (here : good value) : Action.Keeps (Pure.pure value) good := by
  intro world sound
  refine ⟨sound, ?_⟩
  intro other same
  cases same
  exact here

/-- One step goes on from what the step before it came to. -/
theorem bind {action : Action α} {next : α → Action β} (first : action.Keeps good)
    (rest : ∀ value, good value → (next value).Keeps better) : (action >>= next).Keeps better := by
  -- The next step starts where the first one left the shelves, or does not start at all.
  intro world sound
  have begun := first world sound
  rw [Action.after_bind]
  cases middle : action.after world with
  | mk result changed =>
    rw [middle] at begun
    cases result with
    | ok value => exact rest value (begun.2 value rfl) changed begun.1
    | error error =>
      refine ⟨begun.1, ?_⟩
      intro value failed
      cases failed

/-- What always comes to a result is kept if that is good. -/
theorem ofEffect {effect : Effect α}
    (run : ∀ world : World, world.Sound → (effect.run world).2.Sound ∧ good (effect.run world).1) :
    (liftM effect : Action α).Keeps good := by
  intro world sound
  refine ⟨(run world sound).1, ?_⟩
  intro value same
  cases same
  exact (run world sound).2

/-- What is made of a result is kept if it is good. -/
theorem map {action : Action α} {change : α → β} (kept : action.Keeps fun value => better (change value)) :
    (change <$> action).Keeps better := by
  intro world sound
  rw [Action.after_map]
  refine ⟨(kept world sound).1, ?_⟩
  intro value same
  cases result : (action.after world).1 with
  | ok old =>
    rw [result] at same
    cases same
    exact (kept world sound).2 old result
  | error error =>
    rw [result] at same
    cases same

/-- A result leaves the shelves as they are. -/
theorem ofExcept (result : Except ConfigError α) : (liftM result : Action α).Keeps fun _ => True :=
  fun _ sound => ⟨sound, fun _ _ => trivial⟩

end Action.Keeps

namespace World

variable {world : World}

/-- Events do not matter to the shelves. -/
theorem report_keeps (events : List Event) : Action.Keeps (report events) fun _ => True :=
  .ofEffect fun _ sound => ⟨sound, trivial⟩

/-- A new shelf is empty. -/
theorem Sound.addShelf (sound : world.Sound) : (World.addShelf.run world).2.Sound := by
  -- The other shelves are those from before.
  intro shelf member
  rcases List.mem_append.1 member with old | new
  · exact sound shelf old
  · rw [List.mem_singleton.1 new]
    intro kept there
    cases there

/-- What a shelf is asked for was reached. -/
theorem Sound.shelved (sound : world.Sound) {index : Nat} {domain : String} {store : Keyfile}
    (found : ((shelved? index domain).run world).1 = some store) : store.Reachable := by
  -- It is kept for the domain on the shelf of that index.
  obtain ⟨shelf, there, kept⟩ := Option.bind_eq_some_iff.1 found
  obtain ⟨front, back, whole, -⟩ := List.lookup_eq_some_iff.1 kept
  exact sound shelf (List.mem_of_getElem? there) (domain, store) (whole ▸ List.mem_append_right _ List.mem_cons_self)

/-- What is put on a shelf was reached. -/
theorem Sound.putOnShelf (sound : world.Sound) (index : Nat) (domain : String) {store : Keyfile}
    (reached : store.Reachable) : ((putOnShelf index domain store).run world).2.Sound := by
  intro shelf member kept there
  obtain ⟨place, at_⟩ := List.getElem?_of_mem member
  change (world.shelves.modify index (·.keep domain store))[place]? = some shelf at at_
  rw [List.getElem?_modify] at at_
  obtain ⟨old, found, changed⟩ := Option.map_eq_some_iff.1 at_
  have before := sound old (List.mem_of_getElem? found)
  -- The shelf is the one from before, or keeps the store in the place of another.
  split at changed
  · subst changed
    rcases mem_upsert there with same | ⟨replaced, -, -, rfl⟩ | rfl
    · exact before kept same
    · exact reached
    · exact reached
  · subst changed
    exact before kept there

/-- Writing a keyfile leaves the shelves as they are. -/
theorem Sound.writeKeyfile (sound : world.Sound) (store : Keyfile) (path : String) :
    ((writeKeyfile store path).run.run world).2.Sound := by
  have written := writeKeyfile_after store path world
  rw [Action.after] at written
  rw [written]
  exact sound

end World

/-- What is loaded from a file is reached. -/
theorem openKeyfile_reachable {files : FileSystem} {path : String} {store : Keyfile}
    (opened : (openKeyfile files path).1 = .ok store) : store.Reachable := by
  -- Where nothing is, an empty keyfile is opened, and any other fault is the end.
  rw [openKeyfile] at opened
  split at opened
  · cases opened
    exact .empty
  · cases opened
  · next content found =>
    have load := Keyfile.load_default (Source.ofBytes fileChunk content none)
    cases loaded : Keyfile.loadBuffered defaultLineLimit (Source.ofBytes fileChunk content none) with
    | mk result events =>
      rw [loaded] at opened load
      cases result with
      | error fault => cases opened
      | ok store =>
        cases opened
        exact .loaded (congrArg Prod.fst load)

/-- A domain that is opened works on a store that was reached. -/
theorem Backend.openKeyfile_keeps (path : String) :
    (openKeyfile path).Keeps fun backend => backend.store.Reachable := by
  -- What was loaded is held as it is.
  have load : (World.openKeyfile path).Keeps Keyfile.Reachable := by
    intro world sound
    rw [World.openKeyfile_after]
    exact ⟨sound, fun store loaded => openKeyfile_reachable loaded⟩
  apply load.bind
  intro store reached
  apply (World.report_keeps _).bind
  intro _ _
  exact .pure reached

/-- A domain that is opened works on a store that was reached. -/
theorem FactoryKind.openDomain_keeps (kind : FactoryKind) (domain : String) :
    (kind.factory.openDomain domain).Keeps fun backend => backend.store.Reachable := by
  cases kind with
  | keyfile home =>
    -- Making a directory has nothing to do with shelves.
    have ensure : (World.ensureDomain home domain).Keeps fun _ => True := by
      intro world sound
      rw [World.ensureDomain_after]
      cases domainDirectory home domain with
      | error fault => exact ⟨sound, fun _ _ => trivial⟩
      | ok directory =>
        simp only
        cases world.files.ensureDirectories directory with
        | mk result files =>
          cases result with
          | error fault => exact ⟨sound, fun _ _ => trivial⟩
          | ok done => exact ⟨sound, fun _ _ => trivial⟩
    apply ensure.bind
    intro path _
    exact Backend.openKeyfile_keeps path
  | memory shelf =>
    have look : Action.Keeps (World.shelved? shelf domain) fun kept => ∀ store, kept = some store → store.Reachable :=
      .ofEffect fun _ sound => ⟨sound, fun _ found => sound.shelved found⟩
    apply look.bind
    intro kept reached
    apply (World.report_keeps _).bind
    intro _ _
    apply Action.Keeps.pure
    cases kept with
    | none => exact .empty
    | some store => exact reached store rfl
  | faulty faults =>
    -- Such a domain starts with two settings of its own.
    apply (Action.Keeps.ofExcept _).bind
    intro _ _
    apply Action.Keeps.pure
    exact (Keyfile.Reachable.empty.set "mock" "factory" faults.name).set "mock" "domain" domain

namespace WorkingCopy

variable {copy : WorkingCopy}

/-- A store that was reached still is when a key is set or removed. -/
theorem reachable_edit (reached : copy.store.Reachable) (edit : Edit) : (copy.edit edit).store.Reachable := by
  rw [WorkingCopy.edit]
  cases edit.change with
  | some value =>
    simp only [set]
    split
    · exact reached
    · exact reached.set edit.name edit.key value
  | none =>
    simp only [remove]
    split
    · exact reached.remove edit.name edit.key
    · exact reached

variable (putBack : Keyfile → Effect (Except ConfigError Unit)) (copy : WorkingCopy) (world : World)

/-- Putting a store back leaves it as it is. -/
theorem flush_run : ((copy.flush putBack).run world).1.2.store = copy.store ∧
    ((copy.flush putBack).run world).2 = ((putBack copy.store).run world).2 := by
  rw [flush, Effect.run_bind]
  cases (putBack copy.store).run world with
  | mk result after =>
    cases result with
    | ok done => exact ⟨rfl, rfl⟩
    | error error => exact ⟨rfl, rfl⟩

/-- A store that is given up is put back at most. -/
theorem drop_run : ((copy.drop putBack).run world).2 = world ∨
    ((copy.drop putBack).run world).2 = ((putBack copy.store).run world).2 := by
  rw [drop]
  split
  · exact .inr rfl
  · exact .inl rfl

end WorkingCopy

namespace Backend

variable {backend : Backend}

/-- A backend still works on a store that was reached when a key is set or removed. -/
theorem setOrUnset_keeps (reached : backend.store.Reachable) (name key : String) (value : Option String) :
    (backend.setOrUnset name key value).Keeps fun changed => changed.store.Reachable := by
  cases backend with
  | keyfile path copy =>
    -- The change is reported and made in the copy.
    intro world sound
    obtain ⟨events, made⟩ := setOrUnset_after path copy ⟨name, key, value⟩ world
    rw [made]
    refine ⟨sound, ?_⟩
    intro changed same
    cases same
    exact WorkingCopy.reachable_edit reached ⟨name, key, value⟩
  | memory shelf domain copy =>
    have edited := WorkingCopy.reachable_edit reached ⟨name, key, value⟩
    cases value with
    | some text => exact .pure edited
    | none => exact .pure edited
  | faulty faults store =>
    -- Such a backend may refuse to change anything.
    cases value with
    | some text =>
      apply (Action.Keeps.ofExcept (faults.check .set)).bind
      intro _ _
      exact .pure (Keyfile.Reachable.set reached name key text)
    | none =>
      apply (Action.Keeps.ofExcept (faults.check .unset)).bind
      intro _ _
      exact .pure (Keyfile.Reachable.remove reached name key)

/-- A backend still works on its store when that is put back. -/
theorem flush_keeps (reached : backend.store.Reachable) :
    Action.Keeps (Prod.snd <$> liftM backend.flush) fun changed => changed.store.Reachable := by
  apply Action.Keeps.map
  apply Action.Keeps.ofEffect
  intro world sound
  cases backend with
  | keyfile path copy =>
    obtain ⟨same, after⟩ := WorkingCopy.flush_run (fun store => (World.writeKeyfile store path).run) copy world
    exact ⟨after ▸ sound.writeKeyfile copy.store path, (congrArg Keyfile.Reachable same).mpr reached⟩
  | memory shelf domain copy =>
    obtain ⟨same, after⟩ := WorkingCopy.flush_run (World.putOnShelf shelf domain) copy world
    exact ⟨after ▸ sound.putOnShelf shelf domain reached, (congrArg Keyfile.Reachable same).mpr reached⟩
  | faulty faults store => exact ⟨sound, reached⟩

/-- A backend still works on its store when that is put back for the last time. -/
theorem close_keeps (reached : backend.store.Reachable) :
    Action.Keeps (Prod.snd <$> liftM backend.close) fun changed => changed.store.Reachable := by
  apply Action.Keeps.map
  apply Action.Keeps.ofEffect
  intro world sound
  cases backend with
  | keyfile path copy => exact ⟨sound.writeKeyfile copy.store path, reached⟩
  | memory shelf domain copy => exact ⟨sound.putOnShelf shelf domain reached, reached⟩
  | faulty faults store => exact ⟨sound, reached⟩

/-- What is on shelves was reached when a backend is given up. -/
theorem drop_sound (reached : backend.store.Reachable) {world : World} (sound : world.Sound) :
    (backend.drop.run world).2.Sound := by
  cases backend with
  | keyfile path copy =>
    rw [drop]
    rcases WorkingCopy.drop_run (fun store => (World.writeKeyfile store path).run) copy world with same | after
    · rw [same]
      exact sound
    · rw [after]
      exact sound.writeKeyfile copy.store path
  | memory shelf domain copy =>
    rw [drop]
    rcases WorkingCopy.drop_run (World.putOnShelf shelf domain) copy world with same | after
    · rw [same]
      exact sound
    · rw [after]
      exact sound.putOnShelf shelf domain reached
  | faulty faults store => exact sound

end Backend

namespace Session

variable {session : Session}

/-- Whatever a program keeps or holds was reached. -/
structure Sound (session : Session) : Prop where
  /-- Stores on shelves were reached. -/
  world : session.world.Sound
  /-- Stores of backends were reached. -/
  backends : ∀ backend ∈ session.backends, backend.store.Reachable

/-- A program stays sound when it opens a domain. -/
theorem Sound.hold (sound : session.Sound) {action : Action Backend}
    (keeps : action.Keeps fun backend => backend.store.Reachable) : (session.hold action).Sound := by
  -- A new backend comes behind those from before.
  have done := keeps session.world sound.world
  rw [Session.hold]
  cases came : action.after session.world with
  | mk result world =>
    rw [came] at done
    cases result with
    | ok backend =>
      refine ⟨done.1, ?_⟩
      intro other member
      rcases List.mem_append.1 member with old | new
      · exact sound.backends other old
      · exact done.2 other (List.mem_singleton.1 new ▸ rfl)
    | error error => exact ⟨done.1, sound.backends⟩

/-- A program stays sound when it changes a backend. -/
theorem Sound.change (sound : session.Sound) (index : Nat) {action : Backend → Action Backend}
    (keeps : ∀ backend : Backend, backend.store.Reachable →
      (action backend).Keeps fun changed => changed.store.Reachable) : (session.change index action).Sound := by
  -- The backend that is changed was reached, and so is what takes its place.
  rw [Session.change]
  cases held : session.backends[index]? with
  | none => exact sound
  | some backend =>
    have done := keeps backend (sound.backends backend (List.mem_of_getElem? held)) session.world sound.world
    simp only
    cases came : (action backend).after session.world with
    | mk result world =>
      rw [came] at done
      cases result with
      | ok changed =>
        refine ⟨done.1, ?_⟩
        intro other member
        rcases List.mem_or_eq_of_mem_set member with old | new
        · exact sound.backends other old
        · exact done.2 other (new ▸ rfl)
      | error error => exact ⟨done.1, sound.backends⟩

/-- A program stays sound in every turn. -/
theorem Sound.next (sound : session.Sound) (turn : Turn) : (session.next turn).Sound := by
  cases turn with
  | elsewhere files environment accountHome => exact ⟨sound.world, sound.backends⟩
  | addShelf => exact ⟨sound.world.addShelf, sound.backends⟩
  | openDomain kind domain => exact sound.hold (kind.openDomain_keeps domain)
  | openKeyfile path => exact sound.hold (Backend.openKeyfile_keeps path)
  | newMemory domain =>
    have keeps : Action.Keeps (Backend.newMemory domain) fun backend => backend.store.Reachable :=
      .ofEffect fun _ before => ⟨before.addShelf, .empty⟩
    exact sound.hold keeps
  | setOrUnset index name key value =>
    exact sound.change index fun _ reached => Backend.setOrUnset_keeps reached name key value
  | flush index => exact sound.change index fun _ reached => Backend.flush_keeps reached
  | close index => exact sound.change index fun _ reached => Backend.close_keeps reached
  | drop index =>
    rw [Session.next]
    cases held : session.backends[index]? with
    | none => exact sound
    | some backend =>
      refine ⟨Backend.drop_sound (sound.backends backend (List.mem_of_getElem? held)) sound.world, ?_⟩
      intro other member
      exact sound.backends other (List.mem_of_mem_eraseIdx member)

/-- A program that begins without anything in memory stays sound. -/
theorem sound_run {world : World} (bare : world.shelves = []) (turns : List Turn) :
    (turns.foldl Session.next ⟨world, []⟩).Sound := by
  -- Each turn starts from a sound program, and the first one from a program that holds nothing.
  have run : ∀ session : Session, session.Sound → (turns.foldl Session.next session).Sound := by
    induction turns with
    | nil => exact fun _ sound => sound
    | cons turn rest ih => exact fun _ sound => ih _ (sound.next turn)
  apply run
  refine ⟨?_, ?_⟩
  · intro shelf member
    rw [bare] at member
    cases member
  · intro backend member
    cases member

end Session

end ConfigStore
