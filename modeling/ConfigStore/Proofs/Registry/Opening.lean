import ConfigStore.Proofs.Backend.Durable
import ConfigStore.Proofs.Registry.Builder
import ConfigStore.Proofs.Registry.Turns

/-! The backend on which a domain is opened. Both the selection of a name and the opening of a domain look for a factory,
and they find the same one, which is in force for the name. What that answers is forwarded as it is. -/

namespace ConfigStore

/-- A keyfile that cannot be opened has a file that cannot be read. -/
theorem openKeyfile_error {files : FileSystem} {path : String} {error : ConfigError}
    (failed : (openKeyfile files path).1 = .error error) : ∃ fault, error = .file path fault := by
  rw [openKeyfile] at failed
  cases found : files.contents path with
  | ok content =>
    -- What was read is loaded in any case.
    simp only [found, Keyfile.loadBuffered_ofBytes] at failed
    cases failed
  | error fault =>
    cases fault with
    | notFound => simp [found] at failed
    | _ =>
      simp only [found, Except.error.injEq] at failed
      exact ⟨_, failed.symm⟩

namespace Factory

/-- A factory is proper when the want of a backend is no reason of its own: a factory that is asked is there, and that none
is registered under a name is for the registry to say. -/
def Proper (factory : Factory) : Prop :=
  ∀ (domain : String) (world : World) (name : String),
    ((factory.openDomain domain).after world).1 ≠ .error (.backendNotFound name)

/-- When a domain is not opened in a keyfile, the domain, the directory or the file is at fault. -/
theorem proper_keyfile (home : String) : (keyfile home).Proper := by
  intro domain world name
  rw [openDomain_after, World.ensureDomain_after]
  cases domainDirectory home domain with
  | error fault => simp
  | ok directory =>
    cases made : world.files.ensureDirectories directory with
    | mk result files =>
      cases result with
      | error fault => simp [made]
      | ok created =>
        simp only [made]
        cases loaded : openKeyfile files (Path.join directory configFileName) with
        | mk result events =>
          cases result with
          | ok store => simp
          | error error =>
            obtain ⟨fault, rfl⟩ := openKeyfile_error (congrArg Prod.fst loaded)
            simp

/-- On a shelf, every domain is opened. -/
theorem proper_memory (shelf : Nat) : (memory shelf).Proper := by
  intro domain world name failed
  cases failed

/-- A task that is told to fail has failed for that. -/
theorem proper_faulty (faults : Faults) : (faulty faults).Proper := by
  intro domain world name
  rw [openDomain_faulty, Action.after_bind, Action.after_ofExcept, Faults.check]
  by_cases told : faults.tasks.contains .openDomain = true
  · rw [if_pos told]
    simp
  · rw [if_neg told]
    simp

end Factory

/-- Without a name that comes before any file, no name is explicit, whatever the files say. -/
theorem Selector.read_ne_explicit {selector : Selector} (unnamed : selector.override = none) (world : World)
    (name : String) : (selector.read.run world).1 ≠ .explicit name := by
  obtain ⟨text, events, first⟩ := readFirst?_run (selector.userFile.toList ++ selector.systemFile.toList) world
  rw [read, unnamed]
  simp only [Effect.run_bind, first]
  cases text.bind firstName? with
  | none => exact Selection.noConfusion
  | some preferred => exact Selection.noConfusion

namespace Registry

variable {registry : Registry} {name : String} {factory : Factory}

/-- Domains are served from a factory when opening one is reported, and leaves the rest to the factory. -/
def Serves (factory : Factory) (opening : String → Action Handle) : Prop :=
  ∀ domain world, (opening domain).after world =
    (((factory.openDomain domain).after
        { world with events := world.events ++ [.domainOpening domain factory.name] }).1.map (Handle.mk domain),
      ((factory.openDomain domain).after
        { world with events := world.events ++ [.domainOpening domain factory.name] }).2)

/-- Opening under a name serves from the factory of the name. -/
theorem serves_of_factory? (found : registry.factory? name = some factory) :
    Serves factory (registry.openWith name) :=
  openWith_after found

/-- Without a factory of the name, opening a domain reports the want of it and does nothing. -/
theorem openWith_of_absent (absent : registry.factory? name = none) (domain : String) (world : World) :
    (registry.openWith name domain).after world = (.error (.backendNotFound name), world) := by
  rw [openWith, absent]
  rfl

/-- Under the name of a proper factory, no domain is left without a backend. -/
theorem openWith_ne_notFound (found : registry.factory? name = some factory) (proper : factory.Proper)
    (domain : String) (world : World) (missing : String) :
    ((registry.openWith name domain).after world).1 ≠ .error (.backendNotFound missing) := by
  rw [openWith_after found]
  intro failed
  cases opened : ((factory.openDomain domain).after
      { world with events := world.events ++ [.domainOpening domain factory.name] }).1 with
  | ok backend => simp [opened, Except.map] at failed
  | error error =>
    rw [opened] at failed
    exact proper _ _ missing (opened.trans (congrArg Except.error (Except.error.inj failed)))

/-- A name that is preferred selects the factory of the name by its own spelling, and the default for want of one. -/
theorem resolve_preferred (registry : Registry) (name : String) :
    (Selection.preferred name).resolve registry.names =
      ((registry.factory? name).map Factory.name).getD keyfileBackendName := by
  rw [Selection.resolve, names, List.find?_map]
  rfl

/-- What is selected without an explicit name is the name of a factory, or the default. -/
theorem resolve_mem_names (registry : Registry) (selection : Selection)
    (unnamed : ∀ name, selection ≠ .explicit name) :
    selection.resolve registry.names ∈ registry.names ∨ selection.resolve registry.names = keyfileBackendName := by
  cases selection with
  | explicit name => exact absurd rfl (unnamed name)
  | preferred name =>
    rw [resolve_preferred]
    cases found : registry.factory? name with
    | none => exact .inr rfl
    | some factory => exact .inl (List.mem_map_of_mem (List.mem_of_find?_eq_some found))
  | default => exact .inr rfl

/-- There is a factory of a name when the name is among the names in some spelling. -/
theorem exists_factory?_iff :
    (∃ factory, registry.factory? name = some factory) ↔ ∃ spelled ∈ registry.names, sameName spelled name = true := by
  constructor
  · rintro ⟨factory, found⟩
    exact ⟨factory.name, List.mem_map_of_mem (List.mem_of_find?_eq_some found), sameName_of_factory? found⟩
  · rintro ⟨spelled, member, same⟩
    obtain ⟨factory, there, rfl⟩ := List.mem_map.1 member
    exact Option.isSome_iff_exists.1 (List.find?_isSome.2 ⟨factory, there, same⟩)

/-- Where a factory of the name is proper, a backend is not found exactly for want of a factory of the name. -/
theorem openWith_notFound_iff (proper : ∀ factory, registry.factory? name = some factory → factory.Proper)
    (missing domain : String) (world : World) :
    ((registry.openWith name domain).after world).1 = .error (.backendNotFound missing) ↔
      missing = name ∧ registry.factory? name = none := by
  cases found : registry.factory? name with
  | none =>
    rw [openWith_of_absent found]
    exact ⟨fun failed => ⟨(ConfigError.backendNotFound.inj (Except.error.inj failed)).symm, rfl⟩,
      fun same => same.1 ▸ rfl⟩
  | some factory =>
    -- A factory that is there fails for other reasons, if it does.
    refine ⟨fun failed => absurd failed (openWith_ne_notFound found (proper factory found) domain world missing), ?_⟩
    rintro ⟨-, lacking⟩
    cases lacking

/-- With names that are apart, a preferred name serves from the factory of the name. -/
theorem Distinct.serves_preferred (distinct : registry.Distinct) (asked : registry.selection = .preferred name)
    (found : registry.factory? name = some factory) :
    factory ∈ registry.factories ∧ registry.selected = factory.name ∧ Serves factory registry.openDomain := by
  have chosen : registry.selected = factory.name := by
    rw [selected, asked, resolve_preferred, found]
    rfl
  -- The second search looks for the factory's own spelling.
  obtain ⟨same, front, back, split, -⟩ := exists_of_find? found
  refine ⟨List.mem_of_find?_eq_some found, chosen, ?_⟩
  have again := serves_of_factory? (distinct.factory?_of_mem split (sameName_refl factory.name))
  rw [← chosen] at again
  exact again

/-- What is selected without an explicit name is served from a factory as long as there is one for the default. -/
theorem exists_factory?_selected (unnamed : ∀ name, registry.selection ≠ .explicit name)
    (there : ∃ name ∈ registry.names, sameName name keyfileBackendName = true) :
    ∃ factory, registry.factory? registry.selected = some factory := by
  -- The name that is selected is that of a factory in either case.
  rcases registry.resolve_mem_names registry.selection unnamed with member | fallback
  · exact exists_factory?_iff.2 ⟨_, member, sameName_refl _⟩
  · rw [selected, fallback]
    exact exists_factory?_iff.2 there

/-- A registry after some changes, as one that keeps a factory for each name in order. -/
structure Settled (turns : List RegistryTurn) (registry : Registry) : Prop where
  /-- The names stay apart. -/
  distinct : registry.factories.Pairwise fun one other => sameName one.name other.name = false
  /-- A factory of a name that is there takes the place of the old one, and brings its own spelling. -/
  replaces : ∀ front old back factory world, registry.factories = front ++ old :: back →
    sameName old.name factory.name = true →
    ((registry.register factory).run world).1 = { registry with factories := front ++ factory :: back }
  /-- A factory of a new name comes last. -/
  adds : ∀ factory world, (∀ other ∈ registry.factories, sameName other.name factory.name = false) →
    ((registry.register factory).run world).1 = { registry with factories := registry.factories ++ [factory] }
  /-- The one factory of a name is taken out and told. -/
  removes : ∀ front factory back name world, registry.factories = front ++ factory :: back →
    sameName factory.name name = true →
    ((registry.unregister name).run world).1 = (some factory, { registry with factories := front ++ back })
  /-- Without a factory of the name, none is taken out. -/
  leaves : ∀ name world, (∀ other ∈ registry.factories, sameName other.name name = false) →
    ((registry.unregister name).run world).1 = (none, registry)
  /-- A domain is opened under a name on the factory in force for it, and whatever that answers is the answer. -/
  opens : ∀ name factory, RegistryTurn.InForce turns name factory → Serves factory (registry.openWith name)
  /-- Without a factory in force for the name, the answer is the want of a backend, and nothing else is done. -/
  lacks : ∀ name domain world, (∀ factory, ¬RegistryTurn.InForce turns name factory) →
    (registry.openWith name domain).after world = (.error (.backendNotFound name), world)
  /-- As long as a factory that is in force for the name is proper, a backend is not found exactly when there is none. -/
  notFound : ∀ name missing domain world, (∀ factory, RegistryTurn.InForce turns name factory → factory.Proper) →
    (((registry.openWith name domain).after world).1 = .error (.backendNotFound missing) ↔
      missing = name ∧ ∀ factory, ¬RegistryTurn.InForce turns name factory)

/-- The backend on which a registry opens domains, as it was selected. -/
structure Selects (turns : List RegistryTurn) (selection : Selection) (registry : Registry) : Prop where
  /-- A domain is opened under the name that is selected. -/
  opens : ∀ domain, registry.openDomain domain = registry.openWith registry.selected domain
  /-- An explicit name is taken as it is. -/
  explicit : ∀ name, selection = .explicit name → registry.selected = name
  /-- A name that is preferred selects the factory in force for it, on which domains are opened then. -/
  preferred : ∀ name factory, selection = .preferred name → RegistryTurn.InForce turns name factory →
    factory ∈ registry.factories ∧ registry.selected = factory.name ∧ Serves factory registry.openDomain
  /-- Without a factory in force for it, it selects the default. -/
  unknown : ∀ name, selection = .preferred name → (∀ factory, ¬RegistryTurn.InForce turns name factory) →
    registry.selected = keyfileBackendName
  /-- So does asking for nothing. -/
  unasked : selection = .default → registry.selected = keyfileBackendName
  /-- Whatever the files say that a selector reads, it selects a factory or the default unless it has a name of its own.
  With a factory under the default's name, a domain is opened on one that is in force, and if that is proper, no domain is
  left without a backend. -/
  falls : ∀ (selector : Selector) (world : World), selector.override = none →
    (selector.read.run world).1 = selection →
    (registry.selected ∈ registry.names ∨ registry.selected = keyfileBackendName) ∧
      ((∃ name ∈ registry.names, sameName name keyfileBackendName = true) →
        ∃ factory, RegistryTurn.InForce turns registry.selected factory ∧ Serves factory registry.openDomain ∧
          (factory.Proper → ∀ domain here missing,
            ((registry.openDomain domain).after here).1 ≠ .error (.backendNotFound missing)))

/-- A registry is an ordered map by names without case, and selection lands on the factory that is in force. -/
theorem settled_turns (turns : List RegistryTurn) (selection : Selection) (world : World) :
    (((Registry.turns ⟨[], selection⟩ turns).run world).1).Settled turns ∧
      (((Registry.turns ⟨[], selection⟩ turns).run world).1).Selects turns selection := by
  obtain ⟨events, run⟩ := turns_run ⟨[], selection⟩ turns world
  rw [run]
  have empty : Distinct ⟨[], selection⟩ := List.Pairwise.nil
  have distinct := empty.turns turns
  have asked := selection_turns ⟨[], selection⟩ turns
  have inForce := factory?_turns turns selection
  generalize turns.foldl RegistryTurn.apply ⟨[], selection⟩ = registry at distinct asked inForce
  -- What is in force is what is found, so both searches come to it.
  have absent : ∀ name, (∀ factory, ¬RegistryTurn.InForce turns name factory) ↔ registry.factory? name = none := by
    intro name
    simp only [← inForce, Option.eq_none_iff_forall_ne_some, ne_eq]
  refine ⟨⟨distinct, ?_, ?_, ?_, ?_, ?_, ?_, ?_⟩, ⟨fun domain => rfl, ?_, ?_, ?_, ?_, ?_⟩⟩
  · intro front old back factory world split named
    exact distinct.insert_of_mem split named
  · intro factory world new
    exact insert_of_absent new
  · intro front factory back name world split named
    obtain ⟨events, done⟩ := unregister_run registry name world
    rw [done, distinct.factory?_of_mem split named, distinct.erase_of_mem split named]
  · intro name world new
    obtain ⟨events, done⟩ := unregister_run registry name world
    rw [done, factory?_eq_none_iff.2 new, erase_of_absent new]
  · intro name factory held
    exact serves_of_factory? ((inForce name factory).2 held)
  · intro name domain world lacking
    exact openWith_of_absent ((absent name).1 lacking) domain world
  · intro name missing domain world proper
    rw [absent]
    exact openWith_notFound_iff (fun factory found => proper factory ((inForce name factory).1 found)) missing domain world
  · rintro name rfl
    rw [selected, asked]
    rfl
  · rintro name factory rfl held
    exact distinct.serves_preferred asked ((inForce name factory).2 held)
  · rintro name rfl lacking
    rw [selected, asked, resolve_preferred, (absent name).1 lacking]
    rfl
  · rintro rfl
    rw [selected, asked]
    rfl
  · intro selector read unnamed told
    have plain : ∀ name, registry.selection ≠ .explicit name := fun name explicit =>
      selector.read_ne_explicit unnamed read name (told.trans (asked.symm.trans explicit))
    refine ⟨registry.resolve_mem_names registry.selection plain, fun there => ?_⟩
    obtain ⟨factory, found⟩ := exists_factory?_selected plain there
    exact ⟨factory, (inForce _ _).1 found, serves_of_factory? found, fun proper domain here missing =>
      openWith_ne_notFound found proper domain here missing⟩

/-- Two factories under names that differ in case only, the second of which opens nothing, and the default between them. -/
def respelled : List RegistryTurn :=
  [.register (.faulty ⟨"mock", []⟩), .register (.keyfile "/"), .register (.faulty ⟨"Mock", [.openDomain]⟩)]

/-- The second takes the place of the first. A domain under the name is not opened, but not for want of a backend, as it is
under another name. -/
theorem settled_turns_respelled : ∃ registry,
    registry = ((Registry.turns ⟨[], .preferred "MOCK"⟩ respelled).run {}).1 ∧
      registry.names = ["Mock", "default"] ∧ registry.selected = "Mock" ∧
      (∀ domain world missing, ((registry.openWith "mock" domain).after world).1 ≠ .error (.backendNotFound missing)) ∧
      ∀ domain world, ((registry.openWith "other" domain).after world).1 = .error (.backendNotFound "other") := by
  obtain ⟨settled, -⟩ := settled_turns respelled (.preferred "MOCK") {}
  have known : ∀ {name factory}, RegistryTurn.InForce respelled name factory → sameName factory.name name = true ∧
      (factory = .faulty ⟨"mock", []⟩ ∨ factory = .keyfile "/" ∨ factory = .faulty ⟨"Mock", [.openDomain]⟩) := by
    rintro name factory ⟨before, since, split, named, -⟩
    have member : RegistryTurn.register factory ∈ respelled := split ▸ by simp
    exact ⟨named, by simpa [respelled] using member⟩
  have proper : ∀ name factory, RegistryTurn.InForce respelled name factory → factory.Proper := by
    intro name factory held
    obtain ⟨-, rfl | rfl | rfl⟩ := known held
    · exact Factory.proper_faulty _
    · exact Factory.proper_keyfile _
    · exact Factory.proper_faulty _
  have second : RegistryTurn.InForce respelled "mock" (.faulty ⟨"Mock", [.openDomain]⟩) :=
    ⟨[.register (.faulty ⟨"mock", []⟩), .register (.keyfile "/")], [], rfl, by decide, by simp⟩
  refine ⟨_, rfl, by decide +kernel, by decide +kernel, fun domain world missing failed => ?_, fun domain world => ?_⟩
  · exact ((settled.notFound "mock" missing domain world (proper "mock")).1 failed).2 _ second
  · refine (settled.notFound "other" "other" domain world (proper "other")).2 ⟨rfl, fun factory held => ?_⟩
    -- None of the three has that name.
    obtain ⟨named, rfl | rfl | rfl⟩ := known held
    all_goals exact absurd named (by decide +kernel)

end Registry

end ConfigStore
