import ConfigStore.Proofs.Backend.Durable
import ConfigStore.Proofs.Files.Operations

/-! The life of a backend that keeps a keyfile, from its opening until it is given up. Beside the backend goes what is to
be remembered of the past: the store as it was when it was opened or put back last, and whether a change has made a
difference since. The backend remembers no more than the second of these, and writes when it should. -/

namespace ConfigStore

/-- Whether an event tells of an attempt to write a keyfile. -/
def Event.isAttempt : Event → Bool
  | .keyfileWritten _ => true
  | .keyfileUnwritten .. => true
  | _ => false

namespace World

/-- How many attempts there were to write a keyfile. -/
def attempts (world : World) : Nat :=
  world.events.countP Event.isAttempt

end World

/-- What is done with a backend. -/
inductive KeyfileDeed where
  | revise (edit : Edit)
  | flush
  | close
  deriving DecidableEq, Repr

/-- The change that is made, if one is. -/
def KeyfileDeed.edit? : KeyfileDeed → Option Edit
  | .revise edit => some edit
  | .flush => none
  | .close => none

/-- A backend, its surroundings, and what is to be remembered of its past. -/
structure Life where
  /-- The surroundings. -/
  world : World
  /-- The backend. -/
  backend : Backend
  /-- The store when it was opened, flushed with success or closed last. -/
  kept : Keyfile
  /-- Whether a change has made a difference since. -/
  changed : Bool

namespace Life

/-- A backend that was just opened. -/
def begun (world : World) (backend : Backend) : Life :=
  ⟨world, backend, backend.store, false⟩

/-- A backend after something was done with it. -/
def next (life : Life) : KeyfileDeed → Life
  | .revise edit =>
    match (life.backend.setOrUnset edit.name edit.key edit.change).after life.world with
    | (.ok backend, world) =>
      ⟨world, backend, life.kept, life.changed || edit.apply life.backend.store != life.backend.store⟩
    | (.error _, world) => { life with world }
  | .flush =>
    match life.backend.flush.run life.world with
    | ((.ok (), backend), world) => ⟨world, backend, life.backend.store, false⟩
    | ((.error _, backend), world) => ⟨world, backend, life.kept, life.changed⟩
  | .close =>
    let ((_, backend), world) := life.backend.close.run life.world
    ⟨world, backend, life.backend.store, false⟩

/-- A backend after all that was done with it. -/
def after (life : Life) (deeds : List KeyfileDeed) : Life :=
  deeds.foldl next life

/-- The surroundings once the backend is given up. -/
def ended (life : Life) : World :=
  (life.backend.drop.run life.world).2

end Life

namespace World

variable (store : Keyfile) (path : String) (world : World)

/-- Writing a keyfile is one attempt, which replaces the file or leaves the files alone. -/
theorem writeKeyfile_cases :
    (∃ error, (writeKeyfile store path).after world = (.error error, { world with
      events := world.events ++ [.keyfileUnwritten path error]
      conditions := world.conditions.tail })) ∨
    ∃ target files, replaceFile world.files path (Utf8.encode store.render) world.met = (.ok target, files) ∧
      (writeKeyfile store path).after world = (.ok (), { world with
        files
        events := world.events ++ [.keyfileWritten target]
        conditions := world.conditions.tail }) := by
  -- The surroundings are told what became of the files.
  rw [writeKeyfile_after]
  rcases ConfigStore.writeKeyfile_cases world.files store path world.met with
    ⟨error, failed⟩ | ⟨target, files, done, written⟩
  · exact .inl ⟨error, by rw [failed]⟩
  · exact .inr ⟨target, files, done, by rw [written]⟩

/-- Each write counts as one attempt. -/
theorem attempts_writeKeyfile : ((writeKeyfile store path).after world).2.attempts = world.attempts + 1 := by
  -- Either way, one event comes last that tells of it.
  rcases writeKeyfile_cases store path world with ⟨error, failed⟩ | ⟨target, files, -, written⟩
  · rw [failed, attempts, List.countP_append]
    rfl
  · rw [written, attempts, List.countP_append]
    rfl

end World

namespace Backend

variable (path : String) (store : Keyfile) (dirty : Bool) (world : World)

/-- Closing writes the store, and whatever comes of that, there is nothing left to put back. -/
theorem close_keyfile :
    (Backend.keyfile path ⟨store, dirty⟩).close.run world =
      ((((World.writeKeyfile store path).after world).1, .keyfile path ⟨store, false⟩),
        ((World.writeKeyfile store path).after world).2) :=
  rfl

/-- Giving up writes the store if there are changes to put back. -/
theorem drop_keyfile :
    (Backend.keyfile path ⟨store, dirty⟩).drop.run world =
      ((), if dirty then ((World.writeKeyfile store path).after world).2 else world) := by
  cases dirty with
  | true => rfl
  | false => rfl

/-- Flushing writes the store. If that fails, the backend and the files are as they were. -/
theorem flush_keyfile :
    (∃ error, (Backend.keyfile path ⟨store, dirty⟩).flush.run world =
      ((.error error, .keyfile path ⟨store, dirty⟩), { world with
        events := world.events ++ [.keyfileUnwritten path error]
        conditions := world.conditions.tail })) ∨
    ∃ target files, replaceFile world.files path (Utf8.encode store.render) world.met = (.ok target, files) ∧
      (Backend.keyfile path ⟨store, dirty⟩).flush.run world =
        ((.ok (), .keyfile path ⟨store, false⟩), { world with
          files
          events := world.events ++ [.keyfileWritten target]
          conditions := world.conditions.tail }) := by
  -- What is left of the backend depends on what came of the write.
  have run : (Backend.keyfile path ⟨store, dirty⟩).flush.run world =
      match (World.writeKeyfile store path).after world with
      | (.ok (), later) => ((.ok (), .keyfile path ⟨store, false⟩), later)
      | (.error error, later) => ((.error error, .keyfile path ⟨store, dirty⟩), later) := by
    simp only [flush, WorkingCopy.flush, Effect.run_bind, Action.after]
    cases (World.writeKeyfile store path).run.run world with
    | mk result later =>
      cases result with
      | ok done => rfl
      | error error => rfl
  rcases World.writeKeyfile_cases store path world with ⟨error, failed⟩ | ⟨target, files, done, written⟩
  · rw [run, failed]
    exact .inl ⟨error, rfl⟩
  · rw [run, written]
    exact .inr ⟨target, files, done, rfl⟩

end Backend

/-- Closing a handle is one attempt to write, whatever comes of it. -/
theorem Handle.attempts_close (domain path : String) (copy : WorkingCopy) (world : World) :
    ((Handle.close ⟨domain, .keyfile path copy⟩).after world).2.attempts = world.attempts + 1 := by
  -- That the handle is closed is reported first, which is no attempt.
  rw [close_eq, World.attempts_writeKeyfile, World.attempts, List.countP_append]
  rfl

namespace Life

variable {path : String} {life : Life}

/-- What holds of a backend throughout its life: the files are sound, the keyfile can be read if it is there, the backend
knows whether a change has made a difference, and if none has, the store is the one that was kept. -/
inductive Sound (path : String) : Life → Prop where
  | of {world : World} {store kept : Keyfile} {changed : Bool} (anchored : world.files.Anchored)
      (readable : world.files.Readable path) (same : changed = false → store = kept) :
      Sound path ⟨world, .keyfile path ⟨store, changed⟩, kept, changed⟩

/-- What comes of a change is held, and whether it makes a difference. -/
theorem next_revise (world : World) (path : String) (store kept : Keyfile) (changed : Bool) (edit : Edit) :
    ∃ events, (⟨world, .keyfile path ⟨store, changed⟩, kept, changed⟩ : Life).next (.revise edit) =
      ⟨{ world with events := world.events ++ events },
        .keyfile path ⟨edit.apply store, changed || edit.apply store != store⟩, kept,
        changed || edit.apply store != store⟩ := by
  obtain ⟨events, made⟩ := Backend.setOrUnset_after path ⟨store, changed⟩ edit world
  refine ⟨events, ?_⟩
  -- A change that is left out would have made no difference.
  rw [WorkingCopy.edit_eq] at made
  simp only [next, made, Backend.store]

/-- A file that was replaced can be read. -/
theorem readable_of_replaceFile {files after : FileSystem} {target : String} {content : List UInt8}
    {conditions : Conditions} (anchored : files.Anchored) (readable : files.Readable path)
    (done : replaceFile files path content conditions = (.ok target, after)) : after.Anchored ∧ after.Readable path := by
  have kept := anchored.replaceFile path content conditions
  rw [done] at kept
  refine ⟨kept, ?_⟩
  intro fault failed
  -- The new bytes are read, so nothing fails.
  rw [contents_of_replaceFile anchored readable done] at failed
  cases failed

/-- Whatever is done with a sound backend leaves it sound. -/
theorem Sound.next (sound : life.Sound path) (deed : KeyfileDeed) : (life.next deed).Sound path := by
  obtain @⟨world, store, kept, changed, anchored, readable, same⟩ := sound
  cases deed with
  | revise edit =>
    obtain ⟨events, made⟩ := next_revise world path store kept changed edit
    rw [made]
    refine .of anchored readable ?_
    intro clean
    -- Without a difference since, the store is as it was before the change.
    rw [Bool.or_eq_false_iff, bne_eq_false_iff_eq] at clean
    exact clean.2.trans (same clean.1)
  | flush =>
    rw [Life.next]
    rcases Backend.flush_keyfile path store changed world with
      ⟨error, failed⟩ | ⟨target, files, done, written⟩
    · -- What was changed before still is.
      simp only [failed]
      exact .of anchored readable same
    · simp only [written]
      obtain ⟨later, again⟩ := readable_of_replaceFile anchored readable done
      exact .of later again fun _ => rfl
  | close =>
    rw [Life.next, Backend.close_keyfile]
    rcases World.writeKeyfile_cases store path world with
      ⟨error, failed⟩ | ⟨target, files, done, written⟩
    · -- Changes that could not be written are given up, and the store counts as kept.
      simp only [failed]
      exact .of anchored readable fun _ => rfl
    · simp only [written]
      obtain ⟨later, again⟩ := readable_of_replaceFile anchored readable done
      exact .of later again fun _ => rfl

/-- A sound backend stays so throughout its life. -/
theorem Sound.after (sound : life.Sound path) (deeds : List KeyfileDeed) : (life.after deeds).Sound path := by
  induction deeds generalizing life with
  | nil => exact sound
  | cons deed rest ih => exact ih (sound.next deed)

/-- Only changes make a difference to the store, whether or not they are made. -/
theorem store_next (sound : life.Sound path) (deed : KeyfileDeed) :
    (life.next deed).backend.store = deed.edit?.toList.foldl Edit.apply life.backend.store := by
  obtain @⟨world, store, kept, changed, -, -, -⟩ := sound
  cases deed with
  | revise edit =>
    obtain ⟨events, made⟩ := next_revise world path store kept changed edit
    rw [made]
    rfl
  | flush =>
    rw [next]
    rcases Backend.flush_keyfile path store changed world with
      ⟨error, failed⟩ | ⟨target, files, -, written⟩
    · rw [failed]
      rfl
    · rw [written]
      rfl
  | close => rfl

/-- The store is what all the changes make of it, one after the other. -/
theorem store_after (sound : life.Sound path) (deeds : List KeyfileDeed) :
    (life.after deeds).backend.store = (deeds.filterMap (·.edit?)).foldl Edit.apply life.backend.store := by
  -- The store is handed from one deed to the next, on a backend that is still sound.
  induction deeds generalizing life with
  | nil => rfl
  | cons deed rest ih =>
    have later := ih (sound.next deed)
    rw [store_next sound, ← List.foldl_append] at later
    rw [List.filterMap_cons]
    cases made : deed.edit? with
    | none =>
      rw [made] at later
      exact later
    | some edit =>
      rw [made] at later
      exact later

/-- Changes alone leave the files as they are. -/
theorem files_after (sound : life.Sound path) {deeds : List KeyfileDeed} (changes : ∀ deed ∈ deeds, deed.edit?.isSome) :
    (life.after deeds).world.files = life.world.files := by
  induction deeds generalizing life with
  | nil => rfl
  | cons deed rest ih =>
    obtain ⟨first, others⟩ := List.forall_mem_cons.1 changes
    refine (ih (sound.next deed) others).trans ?_
    cases deed with
    | revise edit =>
      obtain @⟨world, store, kept, changed, -, -, -⟩ := sound
      obtain ⟨events, made⟩ := next_revise world path store kept changed edit
      rw [made]
    | flush => cases first
    | close => cases first

/-- A backend that was opened is sound, and the files are as they were. -/
theorem sound_begun {world opened : World} {backend : Backend} (anchored : world.files.Anchored)
    (began : (Backend.openKeyfile path).after world = (.ok backend, opened)) :
    (begun opened backend).Sound path ∧ opened.files = world.files := by
  rw [Backend.openKeyfile, Action.after_bind, World.openKeyfile_after] at began
  -- A keyfile that cannot be loaded opens no backend.
  cases loaded : openKeyfile world.files path with
  | mk result events =>
    cases result with
    | error error => simp [loaded] at began
    | ok store =>
      simp only [loaded] at began
      obtain ⟨rfl, rfl⟩ := began
      have done : (openKeyfile world.files path).1 = .ok store := by rw [loaded]
      obtain ⟨readable, -⟩ := openKeyfile_spec done
      exact ⟨.of anchored readable fun _ => rfl, rfl⟩

/-- Throughout its life, a backend that was opened has the store that all changes would make of it if none were left out.
It has changes to put back if one has made a difference since it was opened, flushed with success or closed last, and has
the store from then if not. When flushing fails, the backend and the files are as before. Giving it up is one attempt to
write if there are changes to put back, and otherwise nothing. Closing it is one attempt, after which giving it up is
nothing, so that closing a handle is one attempt too. A backend that is only changed and given up leaves the files as
they were if no change makes a difference. If one has made a difference, and the attempt to put that back succeeds, then
the keyfile holds the text of the store. All this is so whatever the writes meet. -/
theorem begun_writes_back {path : String} {world opened : World} {backend : Backend} (anchored : world.files.Anchored)
    (began : (Backend.openKeyfile path).after world = (.ok backend, opened)) (deeds : List KeyfileDeed) :
    ∃ life copy, life = (begun opened backend).after deeds ∧ life.backend = .keyfile path copy ∧
      copy.store = (deeds.filterMap (·.edit?)).foldl Edit.apply backend.store ∧
      copy.dirty = life.changed ∧
      (copy.dirty = false → copy.store = life.kept) ∧
      (∀ error left later, life.backend.flush.run life.world = ((.error error, left), later) →
        left = life.backend ∧ later.files = life.world.files) ∧
      life.ended.attempts = life.world.attempts + (if copy.dirty then 1 else 0) ∧
      (∃ result closed later, life.backend.close.run life.world = ((result, closed), later) ∧
        later.attempts = life.world.attempts + 1 ∧ ∀ again, closed.drop.run again = ((), again)) ∧
      (∀ domain, ((Handle.close ⟨domain, life.backend⟩).after life.world).2.attempts = life.world.attempts + 1) ∧
      ((∀ deed ∈ deeds, deed.edit?.isSome) → life.changed = false → life.ended.files = world.files) ∧
      (life.changed = true → ∀ target, life.ended.events = life.world.events ++ [.keyfileWritten target] →
        life.ended.files.contents path = .ok (Utf8.encode copy.store.render)) := by
  obtain ⟨first, unread⟩ := sound_begun anchored began
  have sound := first.after deeds
  have store := store_after first deeds
  have files := @files_after _ _ first deeds
  -- From here on, only what is sound about the backend matters, not how it came about.
  generalize (begun opened backend).after deeds = life at sound store files
  obtain @⟨now, current, kept, changed, anchored, readable, same⟩ := sound
  refine ⟨_, ⟨current, changed⟩, rfl, rfl, store, rfl, same, ?_, ?_, ?_,
    fun domain => Handle.attempts_close domain path _ now, ?_, ?_⟩
  · intro error left later failed
    rcases Backend.flush_keyfile path current changed now with ⟨_, own⟩ | ⟨_, _, -, own⟩
    · rw [own] at failed
      cases failed
      exact ⟨rfl, rfl⟩
    · rw [own] at failed
      cases failed
  · rw [ended, Backend.drop_keyfile]
    cases changed with
    | true => exact World.attempts_writeKeyfile current path now
    | false => rfl
  · refine ⟨_, _, _, Backend.close_keyfile path current changed now,
      World.attempts_writeKeyfile current path now, fun again => ?_⟩
    rw [Backend.drop_keyfile]
    rfl
  · rintro changes rfl
    -- Nothing is written when the backend is given up, and nothing was before.
    rw [ended, Backend.drop_keyfile]
    exact (files changes).trans unread
  · rintro rfl target written
    rw [ended, Backend.drop_keyfile] at written ⊢
    simp only [if_pos] at written ⊢
    rcases World.writeKeyfile_cases current path now with ⟨error, failed⟩ | ⟨_, after, done, own⟩
    · -- An attempt that failed is told by another event.
      rw [failed] at written
      simp at written
    · rw [own]
      exact contents_of_replaceFile anchored readable done

/-- A value that is set to what it was before leaves the file alone. One that is not is written when the backend is given
up, although it could not be when the backend was flushed. -/
theorem begun_writes_back_config : ∃ backend opened,
    (Backend.openKeyfile "config").after
      { files := rootWithFile, conditions := [{ troubles := { move := some .notFound } }] } = (.ok backend, opened) ∧
    ((begun opened backend).after [.revise ⟨"A", "X", some "1"⟩, .revise ⟨"a", "y", none⟩]).ended.files = rootWithFile ∧
    ((begun opened backend).after [.revise ⟨"A", "y", some "2"⟩, .flush]).world.files = rootWithFile ∧
    ((begun opened backend).after [.revise ⟨"A", "y", some "2"⟩, .flush]).ended.files.contents "config" =
      .ok (Utf8.encode "[a]\nx=1\ny=2\n") := by
  have began : (Backend.openKeyfile "config").after
      { files := rootWithFile, conditions := [{ troubles := { move := some .notFound } }] } =
      (.ok (.keyfile "config" ⟨⟨[⟨"a", [⟨"x", "1"⟩]⟩]⟩, false⟩),
        { files := rootWithFile
          conditions := [{ troubles := { move := some .notFound } }]
          events := [.keyfileOpened "config" 1] }) := by decide +kernel
  refine ⟨_, _, began, ?_, by decide +kernel, ?_⟩
  · obtain ⟨life, _, same, -, -, -, -, -, -, -, -, alone, -⟩ := begun_writes_back anchored_rootWithFile began
      [.revise ⟨"A", "X", some "1"⟩, .revise ⟨"a", "y", none⟩]
    have clean : life.changed = false := by
      rw [same]
      decide +kernel
    rw [← same]
    exact alone (by decide) clean
  · obtain ⟨life, copy, same, held, -, -, -, -, -, -, -, -, written⟩ := begun_writes_back anchored_rootWithFile began
      [.revise ⟨"A", "y", some "2"⟩, .flush]
    have differs : life.changed = true := by
      rw [same]
      decide +kernel
    have store : copy.store = ⟨[⟨"a", [⟨"x", "1"⟩, ⟨"y", "2"⟩]⟩]⟩ := by
      have own : life.backend.store = ⟨[⟨"a", [⟨"x", "1"⟩, ⟨"y", "2"⟩]⟩]⟩ := by
        rw [same]
        decide +kernel
      rw [held] at own
      exact own
    rw [← same, written differs "/config" (by rw [same]; decide +kernel), store]
    decide +kernel

end Life

end ConfigStore
