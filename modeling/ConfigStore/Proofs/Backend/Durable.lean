import ConfigStore.Proofs.Backend.Edits
import ConfigStore.Proofs.Keyfile.File
import ConfigStore.Proofs.World
import ConfigStore.Registry.Basic

/-! What a key was given last before a domain was closed is its value when the domain is opened again. -/

namespace ConfigStore

/-- The directory of a domain is below the configuration home, and has a path that is not empty. -/
theorem domainDirectory_spec {home domain directory : String} (located : domainDirectory home domain = .ok directory) :
    directory = Path.join home domain ∧ directory ≠ "" := by
  rw [domainDirectory] at located
  cases fault : domainFault? domain with
  | some reason => simp [fault] at located
  | none =>
    simp only [fault, Except.ok.injEq] at located
    subst located
    refine ⟨rfl, fun empty => ?_⟩
    have named : domain ≠ "" := by
      intro unnamed
      simp [unnamed, domainFault?] at fault
    -- The path ends in that of the domain.
    rw [Path.join] at empty
    split at empty
    · exact named empty
    · split at empty
      · exact named (String.append_eq_empty_iff.1 empty).2
      · exact named (String.append_eq_empty_iff.1 empty).2

namespace Backend

/-- The value of a key is that in the copy of a keyfile. -/
theorem getText_keyfile {path name key value : String} {copy : WorkingCopy}
    (found : copy.store.get? name key = some value) : (Backend.keyfile path copy).getText name key = .ok value := by
  rw [getText, store, found]
  rfl

/-- A change is made in the copy of a keyfile, and the files stay as they are. -/
theorem setOrUnset_after (path : String) (copy : WorkingCopy) (edit : Edit) (world : World) :
    ∃ events, ((Backend.keyfile path copy).setOrUnset edit.name edit.key edit.change).after world =
      (.ok (.keyfile path (copy.edit edit)), { world with events := world.events ++ events }) := by
  -- A change that changes nothing is not even reported.
  rw [WorkingCopy.edit]
  cases edit.change with
  | some value =>
    by_cases held : copy.holds edit.name edit.key value = true
    · exact ⟨[], by simp [setOrUnset, setText, check, held, Except.map]⟩
    · exact ⟨[.valueSet edit.name edit.key path], by simp [setOrUnset, setText, check, held, Except.map]⟩
  | none =>
    by_cases held : copy.has edit.name edit.key = true
    · exact ⟨[.valueRemoved edit.name edit.key path], by simp [setOrUnset, unset, check, held, Except.map]⟩
    · exact ⟨[], by simp [setOrUnset, unset, check, held, Except.map]⟩

end Backend

namespace Handle

/-- Makes a change. -/
def edit (handle : Handle) (edit : Edit) : Action Handle := do
  return { handle with backend := ← handle.backend.setOrUnset edit.name edit.key edit.change }

/-- Makes changes one after the other. -/
def edits (handle : Handle) (edits : List Edit) : Action Handle :=
  edits.foldlM edit handle

/-- Changes are made in the copy of a keyfile, and the files stay as they are. -/
theorem edits_after (domain path : String) (copy : WorkingCopy) (edits : List Edit) (world : World) :
    ∃ events, (Handle.edits ⟨domain, .keyfile path copy⟩ edits).after world =
      (.ok ⟨domain, .keyfile path (edits.foldl WorkingCopy.edit copy)⟩, { world with events }) := by
  -- The copy is handed from one change to the next, and so is the world.
  induction edits generalizing copy world with
  | nil => exact ⟨world.events, rfl⟩
  | cons first rest ih =>
    obtain ⟨before, made⟩ := Backend.setOrUnset_after path copy first world
    obtain ⟨events, later⟩ := ih (copy.edit first) { world with events := world.events ++ before }
    refine ⟨events, ?_⟩
    rw [Handle.edits] at later ⊢
    rw [List.foldlM_cons, Action.after_bind, edit, Action.after_bind, made]
    exact later

/-- Closing is reported and writes the copy of a keyfile once. -/
theorem close_eq (domain path : String) (copy : WorkingCopy) (world : World) :
    (Handle.close ⟨domain, .keyfile path copy⟩).after world =
      (World.writeKeyfile copy.store path).after
        { world with events := world.events ++ [.handleClosing domain keyfileBackendName] } := by
  -- The copy is settled before it is given up, so nothing is written then.
  simp only [close, Backend.close, WorkingCopy.close, Backend.drop, WorkingCopy.drop, WorkingCopy.settled]
  simp [Backend.name]
  rfl

/-- Closing writes the copy of a keyfile once. -/
theorem close_after (domain path : String) (copy : WorkingCopy) (world : World) :
    ∃ events, (Handle.close ⟨domain, .keyfile path copy⟩).after world =
      ((writeKeyfile world.files copy.store path world.met).1,
        { world with
          files := (writeKeyfile world.files copy.store path world.met).2.1
          events
          conditions := world.conditions.tail }) := by
  rw [close_eq, World.writeKeyfile_after]
  exact ⟨_, rfl⟩

end Handle

/-- The name of the settings file names something, and holds no slash. -/
theorem configFileName_names : Path.Names configFileName ∧ '/' ∉ configFileName.toList :=
  ⟨⟨by decide, by decide⟩, by decide⟩

/-- The path of a domain's settings file. -/
def settingsPath (home domain : String) : String :=
  Path.join (Path.join home domain) configFileName

/-- Opening a domain in keyfiles creates its directory and loads its settings file. -/
theorem Factory.openDomain_after {home domain : String} {world : World} :
    ((Factory.keyfile home).openDomain domain).after world =
      match (World.ensureDomain home domain).after world with
      | (.error error, made) => (.error error, made)
      | (.ok path, made) =>
        match openKeyfile made.files path with
        | (.error error, events) => (.error error, { made with events := made.events ++ events })
        | (.ok store, events) =>
          (.ok (.keyfile path ⟨store, false⟩),
            { made with events := made.events ++ events ++ [.keyfileOpened path store.sections.length] }) := by
  -- One step follows on the other as long as none fails.
  rw [openDomain_keyfile, Action.after_bind]
  cases (World.ensureDomain home domain).after world with
  | mk result made =>
    cases result with
    | error error => rfl
    | ok path =>
      simp only [Backend.openKeyfile, Action.after_bind, World.openKeyfile_after]
      cases openKeyfile made.files path with
      | mk result events =>
        cases result with
        | error error => rfl
        | ok store => rfl

/-- A domain that was opened in a keyfile has a directory, and its settings file was loaded. -/
theorem Factory.openDomain_spec {home domain : String} {world opened : World} {backend : Backend}
    (done : ((Factory.keyfile home).openDomain domain).after world = (.ok backend, opened)) :
    domainDirectory home domain = .ok (Path.join home domain) ∧
      world.files.ensureDirectories (Path.join home domain) = (.ok (), opened.files) ∧
      (∃ events, opened = { world with files := opened.files, events }) ∧
      ∃ store, (openKeyfile opened.files (settingsPath home domain)).1 = .ok store ∧
        backend = .keyfile (settingsPath home domain) ⟨store, false⟩ := by
  -- Any step that failed would have been the end.
  rw [openDomain_after, World.ensureDomain_after] at done
  cases located : domainDirectory home domain with
  | error fault => simp [located] at done
  | ok directory =>
    obtain ⟨rfl, _⟩ := domainDirectory_spec located
    simp only [located] at done
    cases made : world.files.ensureDirectories (Path.join home domain) with
    | mk result files =>
      cases result with
      | error fault => simp [made] at done
      | ok created =>
        simp only [made] at done
        cases loaded : openKeyfile files (Path.join (Path.join home domain) configFileName) with
        | mk result events =>
          cases result with
          | error error => simp [loaded] at done
          | ok store =>
            simp only [loaded, Prod.mk.injEq, Except.ok.injEq] at done
            obtain ⟨rfl, rfl⟩ := done
            exact ⟨rfl, rfl, ⟨_, rfl⟩, store, by rw [settingsPath, loaded], rfl⟩

/-- A domain whose directory is there is opened with what its settings file is loaded as. -/
theorem Factory.openDomain_of_directory {home domain : String} (world : World) {store : Keyfile}
    (located : domainDirectory home domain = .ok (Path.join home domain))
    (there : world.files.ensureDirectories (Path.join home domain) = (.ok (), world.files))
    (loaded : (openKeyfile world.files (settingsPath home domain)).1 = .ok store) :
    ∃ opened, ((Factory.keyfile home).openDomain domain).after world =
      (.ok (.keyfile (settingsPath home domain) ⟨store, false⟩), opened) := by
  -- No step fails, and only events are added.
  rw [openDomain_after, World.ensureDomain_after, located]
  simp only [there]
  cases opened : openKeyfile world.files (Path.join (Path.join home domain) configFileName) with
  | mk result events =>
    rw [settingsPath, opened] at loaded
    simp only at loaded
    subst loaded
    exact ⟨_, rfl⟩

/-- Files in which a domain was saved with changes: its settings file was loaded, and replaced by the changed one. -/
structure Saved (home domain : String) (edits : List Edit) (files : FileSystem) : Prop where
  /-- The domain has a directory below the configuration home. -/
  located : domainDirectory home domain = .ok (Path.join home domain)
  /-- The settings file was replaced. -/
  replaced : ∃ before store target conditions, before.Anchored ∧
    (openKeyfile before (settingsPath home domain)).1 = .ok store ∧
    replaceFile before (settingsPath home domain)
      (Utf8.encode (edits.foldl WorkingCopy.edit ⟨store, false⟩).store.render) conditions = (.ok target, files)

/-- A domain that was opened, changed and closed is saved, and nothing has changed but the files, the events and what is
met. -/
theorem Handle.saved {home domain : String} {world opened closed : World} {backend : Backend}
    (began : ((Factory.keyfile home).openDomain domain).after world = (.ok backend, opened))
    (anchored : world.files.Anchored) {edits : List Edit}
    (ended : (do (← (Handle.mk domain backend).edits edits).close : Action Unit).after opened = (.ok (), closed)) :
    Saved home domain edits closed.files ∧
      ∃ events, closed = { world with files := closed.files, events, conditions := world.conditions.tail } := by
  obtain ⟨located, created, ⟨_, same⟩, store, loaded, rfl⟩ := Factory.openDomain_spec began
  have kept : opened.files.Anchored := by
    have made := anchored.ensureShape (Path.Shape.ofPath (Path.join home domain))
    rw [← FileSystem.ensureDirectories, created] at made
    exact made
  -- The changes are made in the copy, and the copy is written when the domain is closed.
  obtain ⟨events, changed⟩ := Handle.edits_after domain (settingsPath home domain) ⟨store, false⟩ edits opened
  obtain ⟨later, written⟩ := Handle.close_after domain (settingsPath home domain)
    (edits.foldl WorkingCopy.edit ⟨store, false⟩) { opened with events }
  rw [Action.after_bind, changed] at ended
  simp only [written, Prod.mk.injEq] at ended
  obtain ⟨saved, rfl⟩ := ended
  obtain ⟨target, replaced⟩ := writeKeyfile_spec saved
  exact ⟨⟨located, opened.files, store, target, _, kept, loaded, replaced⟩, later, by rw [same]⟩

/-- A domain that was saved is opened again, and what a key was given last is its value. -/
theorem Saved.reopened {home domain : String} {edits : List Edit} (world : World)
    (saved : Saved home domain edits world.files) (fits : ∀ edit ∈ edits, edit.Fits defaultLineLimit) :
    ∃ copy opened, ((Factory.keyfile home).openDomain domain).after world =
        (.ok (.keyfile (settingsPath home domain) copy), opened) ∧
      ∀ name key value, Edit.last? edits name key = some (some value) → copy.store.get? name key = some value := by
  obtain ⟨located, before, store, target, conditions, kept, loaded, replaced⟩ := saved
  obtain ⟨readable, carried⟩ := openKeyfile_spec loaded
  -- What is read again are the bytes that were written, and the directory is there.
  obtain ⟨reread, there⟩ := reread_of_replaceFile kept readable (domainDirectory_spec located).2
    configFileName_names.1 configFileName_names.2 replaced
  obtain ⟨opened, found⟩ := Factory.openDomain_of_directory world located there (openKeyfile_of_contents reread)
  refine ⟨_, opened, found, fun name key value given => ?_⟩
  -- The lines of the value fit, since they are as long as those of the change that gave it.
  obtain ⟨edit, member, meets, change⟩ := Edit.exists_of_last? given
  obtain ⟨-, title, lines⟩ := fits edit member value change
  have line : edit.key.utf8ByteSize + 1 + value.utf8ByteSize ≤ defaultLineLimit := lines _ (List.mem_singleton_self _)
  rw [Edit.meets, Bool.and_eq_true] at meets
  have nameSize := sameName_size meets.1
  have keySize := sameName_size meets.2
  exact (WorkingCopy.carried_edits carried fits).get?_loadBytes (WorkingCopy.get?_edits given)
    (nameSize ▸ title) (keySize ▸ line)

namespace Registry

/-- Opens a domain, makes changes, and closes it. -/
def edit (registry : Registry) (backend domain : String) (edits : List Edit) : Action Unit := do
  let handle ← registry.openWith backend domain
  (← handle.edits edits).close

/-- A handle serves the domain as the factory of the name opens it. -/
theorem openWith_after {registry : Registry} {backend : String} {factory : Factory}
    (named : registry.factory? backend = some factory) (domain : String) (world : World) :
    (registry.openWith backend domain).after world =
      (((factory.openDomain domain).after
          { world with events := world.events ++ [.domainOpening domain factory.name] }).1.map (Handle.mk domain),
        ((factory.openDomain domain).after
          { world with events := world.events ++ [.domainOpening domain factory.name] }).2) := by
  simp only [openWith, named]
  simp

/-- What a key was given last before a domain was closed is its value when the domain is opened next, whatever was in
its settings file before, and even if that is on another registry. -/
theorem openWith_edit {registry again : Registry} {backend other home domain : String} {world closed next : World}
    (named : registry.factory? backend = some (.keyfile home)) (renamed : again.factory? other = some (.keyfile home))
    (anchored : world.files.Anchored) {edits : List Edit} (fits : ∀ edit ∈ edits, edit.Fits defaultLineLimit)
    (done : (registry.edit backend domain edits).after world = (.ok (), closed)) (same : next.files = closed.files) :
    ∃ handle opened, (again.openWith other domain).after next = (.ok handle, opened) ∧
      ∀ name key value, Edit.last? edits name key = some (some value) →
        handle.backend.getText name key = .ok value := by
  -- Closing saved the domain in the files, and opening it again loads it from there.
  rw [edit, Action.after_bind, openWith_after named] at done
  cases began : ((Factory.keyfile home).openDomain domain).after
      { world with events := world.events ++ [.domainOpening domain (Factory.keyfile home).name] } with
  | mk result opened =>
    cases result with
    | error error => simp [began, Except.map] at done
    | ok backend =>
      rw [began] at done
      have saved : Saved home domain edits next.files := same ▸ (Handle.saved began anchored done).1
      rw [openWith_after renamed]
      obtain ⟨copy, reopened, found, values⟩ := Saved.reopened
        { next with events := next.events ++ [.domainOpening domain (Factory.keyfile home).name] } saved fits
      rw [found]
      exact ⟨_, _, rfl, fun name key value given => Backend.getText_keyfile (values name key value given)⟩

/-- A key that is given two values in spellings of its own keeps the second one, next to one that is removed. -/
theorem openWith_edit_twice : ∃ handle opened,
    (openWith ⟨[.keyfile "/h"], .default⟩ "default" "d").after
        ((edit ⟨[.keyfile "/h"], .default⟩ "default" "d"
          [⟨"a", "k", some "v"⟩, ⟨"A", "K", some "w"⟩, ⟨"a", "x", none⟩]).after {}).2 = (.ok handle, opened) ∧
      handle.backend.getText "a" "K" = .ok "w" := by
  -- The whole run is small enough to be computed.
  have done : ((edit ⟨[.keyfile "/h"], .default⟩ "default" "d"
      [⟨"a", "k", some "v"⟩, ⟨"A", "K", some "w"⟩, ⟨"a", "x", none⟩]).after {}).1 = .ok () := by decide +kernel
  obtain ⟨handle, opened, found, values⟩ := @openWith_edit ⟨[.keyfile "/h"], .default⟩ ⟨[.keyfile "/h"], .default⟩
    "default" "default" "/h" "d" {} _ _ rfl rfl FileSystem.anchored_empty _ (by decide) (Prod.ext done rfl) rfl
  exact ⟨handle, opened, found, values "a" "K" "w" (by decide)⟩

end Registry

end ConfigStore
