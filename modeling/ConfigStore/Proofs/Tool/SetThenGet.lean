import ConfigStore.Proofs.Backend.Durable
import ConfigStore.Proofs.Registry.Builder
import ConfigStore.Tool.Basic

/-! A value that was set by one tool is shown by another, whatever was in the settings file before. -/

namespace ConfigStore

namespace Tool

variable {domain name key value : String} {world : World}

/-- The tools open domains in keyfiles below the platform's home, or not at all. -/
theorem openDomain_after (domain : String) (world : World) :
    ∃ events, (openDomain domain).after world =
      match (platformHome.after world).1 with
      | .error error => (.error error, { world with events })
      | .ok home =>
        if sameName keyfileBackendName (backendName world.environment) then
          ((((Factory.keyfile home).openDomain domain).after { world with events }).1.map (Handle.mk domain),
            (((Factory.keyfile home).openDomain domain).after { world with events }).2)
        else (.error (.backendNotFound (backendName world.environment)), { world with events }) := by
  obtain ⟨selection, events, selected, built⟩ := defaultRegistry_after world
  rw [openDomain, Action.after_bind, built]
  cases (platformHome.after world).1 with
  | error error => exact ⟨events, rfl⟩
  | ok home =>
    -- The registry selects the name that was asked for, and has no other factory.
    have chosen : Registry.selected ⟨[.keyfile home], selection⟩ = backendName world.environment := selected
    simp only [Except.map, Registry.openDomain, chosen]
    by_cases named : sameName keyfileBackendName (backendName world.environment) = true
    · have found : Registry.factory? ⟨[.keyfile home], selection⟩ (backendName world.environment) =
          some (.keyfile home) := by
        rw [Registry.factory?, List.find?_cons]
        simp only [Factory.name_keyfile, named]
      rw [Registry.openWith_after found]
      exact ⟨_, by rw [if_pos named]; rfl⟩
    · have missing : Registry.factory? ⟨[.keyfile home], selection⟩ (backendName world.environment) = none := by
        rw [Registry.factory?, List.find?_cons]
        simp only [Factory.name_keyfile, named]
        rfl
      simp only [Registry.openWith, missing]
      exact ⟨events, by rw [if_neg named]; rfl⟩

/-- A value is set in the domain that is opened, and shown even if closing the domain fails. -/
theorem runSet_run (domain name key value : String) (world : World) :
    (runSet domain name key value).run world =
      match (openDomain domain >>= fun handle => handle.edit ⟨name, key, some value⟩).after world with
      | (.error error, opened) => (Tool.setValue.failed 1 "" error, opened)
      | (.ok handle, opened) =>
        match handle.close.after opened with
        | (.ok (), closed) => ({ code := 0, output := s!"{name}/{key} => {value}\n" }, closed)
        | (.error error, closed) => (Tool.setValue.failed 1 s!"{name}/{key} => {value}\n" error, closed) := by
  -- The run is split at its first fault, in opening, setting or closing.
  have began : (openDomain domain >>= fun handle => handle.edit ⟨name, key, some value⟩).run.run world =
      (openDomain domain >>= fun handle => handle.edit ⟨name, key, some value⟩).after world := rfl
  rw [runSet, Effect.run_bind]
  simp only [Handle.edit, Backend.setOrUnset] at began ⊢
  rw [began]
  cases (openDomain domain >>= _).after world with
  | mk result opened =>
    cases result with
    | error error => rfl
    | ok handle =>
      have ended : handle.close.run.run opened = handle.close.after opened := rfl
      simp only [Effect.run_bind, ended]
      cases handle.close.after opened with
      | mk result closed =>
        cases result with
        | error error => rfl
        | ok done => rfl

/-- The value of a key is shown. -/
theorem runGet_run {handle : Handle} {opened : World} (began : (openDomain domain).after world = (.ok handle, opened))
    (found : handle.backend.getText name key = .ok value) :
    (runGet domain name key).run world = ({ code := 0, output := value ++ "\n" }, opened) := by
  -- Opening leads to the handle, and reading the value changes nothing.
  have read :
      (openDomain domain >>= fun handle => liftM (handle.backend.getText name key) : Action String).after world =
        (.ok value, opened) := by
    rw [Action.after_bind, began]
    simp only [Action.after_ofExcept, found]
  rw [Action.after] at read
  rw [runGet, Effect.run_bind, read]
  rfl

/-- A tool that set a value and ended well has opened the domain, changed it and closed it. -/
theorem runSet_spec {outcome : Outcome} {closed : World}
    (done : (runSet domain name key value).run world = (outcome, closed)) (well : outcome.code = 0) :
    ∃ handle opened, (openDomain domain).after world = (.ok handle, opened) ∧
      (handle.edits [⟨name, key, some value⟩] >>= Handle.close).after opened = (.ok (), closed) := by
  -- Any step that failed would have ended the tool with another code.
  rw [runSet_run, Action.after_bind] at done
  cases began : (openDomain domain).after world with
  | mk result opened =>
    cases result with
    | error error =>
      simp only [began] at done
      cases done
      cases well
    | ok handle =>
      simp only [began] at done
      refine ⟨handle, opened, rfl, ?_⟩
      rw [Handle.edits, List.foldlM_cons]
      cases edited : (handle.edit ⟨name, key, some value⟩).after opened with
      | mk result between =>
        cases result with
        | error error =>
          simp only [edited] at done
          cases done
          cases well
        | ok changed =>
          simp only [edited] at done
          cases ended : changed.close.after between with
          | mk result last =>
            cases result with
            | error error =>
              simp only [ended] at done
              cases done
              cases well
            | ok nothing =>
              simp only [ended] at done
              cases done
              simp [edited, ended]

/-- After a value was set by one tool that ended well, another shows it, under every spelling of the names. -/
theorem runGet_of_runSet {outcome : Outcome} {closed : World} (anchored : world.files.Anchored)
    (fits : Edit.Fits defaultLineLimit ⟨name, key, some value⟩)
    (done : (runSet domain name key value).run world = (outcome, closed)) (well : outcome.code = 0)
    {other otherKey : String} (names : sameName name other = true) (keys : sameName key otherKey = true) :
    ((runGet domain other otherKey).run closed).1 = { code := 0, output := value ++ "\n" } := by
  obtain ⟨handle, opened, began, ended⟩ := runSet_spec done well
  obtain ⟨events, first⟩ := openDomain_after domain world
  rw [began] at first
  cases settled : (platformHome.after world).1 with
  | error error =>
    rw [settled] at first
    cases first
  | ok home =>
    rw [settled] at first
    simp only at first
    split at first
    · next named =>
      cases loaded : ((Factory.keyfile home).openDomain domain).after { world with events } with
      | mk result made =>
        rw [loaded] at first
        cases result with
        | error error => cases first
        | ok backend =>
          cases first
          obtain ⟨saved, _, same⟩ := Handle.saved loaded anchored ended
          -- The second tool finds the same home, and opens the domain in the same files.
          obtain ⟨later, second⟩ := openDomain_after domain closed
          have again : (platformHome.after closed).1 = .ok home := by
            rw [same]
            exact (congrArg Prod.fst (platformHome_after world closed.files world.conditions.tail _)).trans settled
          have chosen : sameName keyfileBackendName (backendName closed.environment) = true := by
            rw [same]
            exact named
          rw [again] at second
          simp only [chosen, if_true] at second
          obtain ⟨copy, reopened, found, values⟩ := Saved.reopened { closed with events := later } saved
            (List.forall_mem_singleton.2 fits)
          rw [found] at second
          have given : Edit.last? [⟨name, key, some value⟩] other otherKey = some (some value) := by
            simp [Edit.last?, Edit.meets, names, keys]
          rw [runGet_run second (Backend.getText_keyfile (values other otherKey value given))]
    · cases first

end Tool

end ConfigStore
