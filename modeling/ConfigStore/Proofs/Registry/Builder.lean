import ConfigStore.Proofs.World
import ConfigStore.Registry.Builder

/-! The registry of the tools keeps domains in keyfiles, and what selects a backend depends on the environment. -/

namespace ConfigStore

/-- Looking for the home directory changes nothing. -/
theorem homeDirectory?_run (world : World) :
    homeDirectory?.run world =
      (((world.environment.lookup "HOME").filter (!·.isEmpty)).or world.accountHome, world) :=
  rfl

/-- The home of the platform depends on the environment and the account only, and changes nothing. -/
theorem platformHome_after (world : World) (files : FileSystem) (conditions : List Conditions) (events : List Event) :
    platformHome.after { world with files, conditions, events } =
      ((platformHome.after world).1, { world with files, conditions, events }) := by
  -- Neither files nor events are looked at.
  simp only [platformHome, Action.after_bind, Action.after_ofEffect, World.run_lookup?, homeDirectory?_run]
  cases ((world.environment.lookup "HOME").filter (!·.isEmpty)).or world.accountHome with
  | none => rfl
  | some home =>
    cases (world.environment.lookup homeVariable).filter Path.isAbsolute with
    | none => rfl
    | some named => rfl

namespace Selector

/-- Reading a file that may name a backend only adds events. -/
theorem readText?_run (path : String) (world : World) :
    ∃ text events, (readText? path).run world = (text, { world with events }) := by
  -- The file is read or not, and nothing is written.
  have seen : (get : Effect World).run world = (world, world) := rfl
  rw [readText?, Effect.run_bind, seen]
  cases found : world.files.contents path with
  | error fault =>
    exact ⟨none, world.events, rfl⟩
  | ok content =>
    exact ⟨some (Utf8.decode content), world.events ++ [.selectionRead path], rfl⟩

/-- So does reading the first of some files. -/
theorem readFirst?_run (paths : List String) (world : World) :
    ∃ text events, (readFirst? paths).run world = (text, { world with events }) := by
  -- The first file with a text is the last one that is read.
  induction paths generalizing world with
  | nil => exact ⟨none, world.events, rfl⟩
  | cons path others ih =>
    obtain ⟨text, events, read⟩ := readText?_run path world
    rw [readFirst?, Effect.run_bind, read]
    cases text with
    | none => exact ih _
    | some text => exact ⟨some text, events, rfl⟩

/-- The name that comes before any file is asked for, and otherwise one that is only preferred. -/
theorem read_run (selector : Selector) (world : World) :
    ∃ selection events, selector.read.run world = (selection, { world with events }) ∧
      selection.resolve [keyfileBackendName] = selector.override.getD keyfileBackendName := by
  rw [read]
  cases selector.override with
  | some name => exact ⟨.explicit name, world.events ++ [.backendRequested name selectionVariable], rfl, rfl⟩
  | none =>
    obtain ⟨text, events, first⟩ := readFirst?_run (selector.userFile.toList ++ selector.systemFile.toList) world
    simp only [Effect.run_bind, first]
    cases text.bind firstName? with
    | none => exact ⟨.default, events, rfl, rfl⟩
    | some name =>
      refine ⟨.preferred name, events, rfl, ?_⟩
      -- The only name there is, is that of the default.
      rw [Selection.resolve, List.find?_cons]
      split <;> rfl

end Selector

/-- The name of the backend that the environment asks for, or else that of the default. -/
def backendName (environment : List (String × String)) : String :=
  ((environment.lookup selectionVariable).filter (!·.isEmpty)).getD keyfileBackendName

/-- The registry of the tools keeps domains in keyfiles below the platform's home, and nothing else. -/
theorem defaultRegistry_after (world : World) :
    ∃ selection events, Registry.selected ⟨[.keyfile ""], selection⟩ = backendName world.environment ∧
      defaultRegistry.after world =
        ((platformHome.after world).1.map fun home => ⟨[.keyfile home], selection⟩, { world with events }) := by
  -- Each step of the plan is run in turn, and none of them writes a file.
  have placed : Selector.ofEnvironment.run world =
      (⟨(world.environment.lookup selectionVariable).filter (!·.isEmpty),
        (homeDirectory?.run world).1.map (Path.join · userSelectionFile), some systemSelectionFile⟩, world) := rfl
  obtain ⟨selection, events, asked, resolved⟩ := Selector.read_run (Selector.ofEnvironment.run world).1 world
  have settled := platformHome_after world world.files world.conditions events
  rw [placed] at asked
  rw [defaultRegistry, RegistryPlan.build]
  simp only [Action.after_bind, Action.after_ofEffect, placed, asked, RegistryPlan.registerAll, RegistryPlan.factory,
    settled]
  cases (platformHome.after world).1 with
  | error error => exact ⟨selection, events, resolved, rfl⟩
  | ok home => exact ⟨selection, _, resolved, rfl⟩

end ConfigStore
