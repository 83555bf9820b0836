import ConfigStore.Proofs.Backend.Durable
import ConfigStore.Proofs.Files.Based
import ConfigStore.Proofs.Files.Grows
import ConfigStore.Proofs.Files.Operations

/-! The directory and the settings file of a domain below the base to which the home leads. Above a base where nothing is
yet, a domain that is opened has no settings. -/

namespace ConfigStore

open FileSystem
open Path (namesOf namesOf_append namesOf_cons_name)

variable {files after : FileSystem} {home domain : String} {base : Location}

/-- The path of a settings file is not empty. -/
theorem settingsPath_ne_empty (home domain : String) : settingsPath home domain ≠ "" := by
  obtain ⟨front, whole, -⟩ := Path.pieces_join (Path.join home domain)
    (Path.isAbsolute_of_not_mem configFileName_names.2)
  rw [Path.pieces_of_not_mem configFileName_names.2] at whole
  exact ne_empty_of_names whole configFileName_names.1

/-- A domain whose directory is at the end of a way without links, with its settings file behind. Paths that have faults
of their own do not count. -/
structure Placed (files : FileSystem) (home domain : String) (base : Location) (way : List String) : Prop where
  /-- The domain has a directory below the configuration home. -/
  located : domainDirectory home domain = .ok (Path.join home domain)
  /-- The way to the settings file has no links. -/
  unlinked : files.Unlinked base (way ++ [configFileName])
  /-- The directory is below the base. -/
  directory : pathFault? (Path.join home domain) = none →
    ∃ pieces, namesOf pieces = way ∧ files.Below (Path.join home domain) base pieces
  /-- So is the settings file. -/
  settings : pathFault? (settingsPath home domain) = none →
    ∃ inner, namesOf inner = way ∧ files.Below (settingsPath home domain) base (inner ++ [configFileName])

/-- A domain behind a home that leads below a base is placed. -/
theorem FileSystem.Based.placed {rest : List String} (based : files.Based home base rest)
    (located : domainDirectory home domain = .ok (Path.join home domain))
    (unlinked : files.Unlinked base (namesOf rest ++ Path.names domain ++ [configFileName])) :
    Placed files home domain base (namesOf rest ++ Path.names domain) := by
  obtain ⟨-, relative, level⟩ := domainFault?_eq_none_iff.1 (domainDirectory_eq_ok_iff.1 located).1
  obtain ⟨-, filled⟩ := domainDirectory_spec located
  have directory : pathFault? (Path.join home domain) = none → ∃ pieces,
      namesOf pieces = namesOf rest ++ Path.names domain ∧ files.Below (Path.join home domain) base pieces := by
    intro sound
    obtain ⟨more, same, below⟩ := based.below relative level sound (unlinked.mono (List.prefix_append ..))
    refine ⟨more ++ Path.pieces domain, ?_, below⟩
    rw [namesOf_append, same]
    rfl
  refine ⟨located, unlinked, directory, fun sound => ?_⟩
  have plain := Path.isAbsolute_of_not_mem configFileName_names.2
  have last := Path.pieces_of_not_mem configFileName_names.2
  obtain ⟨pieces, same, below⟩ := directory (pathFault?_of_join plain filled sound)
  -- The directory is a home for the settings file.
  obtain ⟨inner, again, settings⟩ := below.based.below plain (by rw [last]; decide) sound (by
    rw [last, same]
    exact unlinked)
  rw [last] at settings
  exact ⟨inner, again.trans same, settings⟩

namespace Placed

variable {way : List String}

/-- A domain is placed as well in files that came of others. -/
theorem grows (placed : Placed files home domain base way) (grows : files.Grows after) :
    Placed after home domain base way where
  located := placed.located
  unlinked := grows.unlinked placed.unlinked
  directory sound := by
    obtain ⟨pieces, rfl, below⟩ := placed.directory sound
    exact ⟨pieces, rfl, below.grows grows⟩
  settings sound := by
    obtain ⟨inner, rfl, below⟩ := placed.settings sound
    exact ⟨inner, rfl, below.grows grows⟩

/-- Behind an open way, the path of the settings file ends by its name. -/
theorem entry (placed : Placed files home domain base way)
    (sound : pathFault? (settingsPath home domain) = none) (isOpen : files.Open base way) :
    files.Entry (settingsPath home domain) (base ++ way) configFileName := by
  obtain ⟨inner, rfl, below⟩ := placed.settings sound
  exact below.based.entry configFileName_names.1 (by decide) isOpen

/-- No link is by the name of the settings file. -/
theorem solid (placed : Placed files home domain base way) (target : String) :
    files.node? (base ++ way ++ [configFileName]) ≠ some (.link target) := by
  rw [List.append_assoc]
  exact placed.unlinked _ List.prefix_rfl target

/-- The directory is created along the way. -/
theorem ensured (placed : Placed files home domain base way) (sound : pathFault? (Path.join home domain) = none) :
    Ensured files base way (FileSystem.Pointed (Path.join home domain))
      (files.ensureDirectories (Path.join home domain)) := by
  obtain ⟨pieces, rfl, below⟩ := placed.directory sound
  exact ensureDirectories_ensured below

/-- Where the directory is there, it is not created. -/
theorem ensureDirectories_of_open (placed : Placed files home domain base way)
    (sound : pathFault? (Path.join home domain) = none) (isOpen : files.Open base way) :
    files.ensureDirectories (Path.join home domain) = (.ok (), files) := by
  obtain ⟨pieces, rfl, below⟩ := placed.directory sound
  obtain ⟨links, run⟩ := below.runs_of_open isOpen
  exact ensureDirectories_of_directory below.sound run isOpen.end_inside

/-- If the directory is there, the path of the settings file leads to what is by its name. -/
theorem stat_of_open (placed : Placed files home domain base way)
    (sound : pathFault? (settingsPath home domain) = none) (isOpen : files.Open base way) :
    files.stat (settingsPath home domain) = match files.node? (base ++ (way ++ [configFileName])) with
      | none => .error .notFound
      | some node => .ok node := by
  obtain ⟨inner, rfl, below⟩ := placed.settings sound
  exact below.stat_of_open configFileName_names.1 (by decide) isOpen

/-- A path of a settings file without fault is one of a directory without fault, with the name behind. -/
theorem sound_directory (placed : Placed files home domain base way)
    (sound : pathFault? (settingsPath home domain) = none) : pathFault? (Path.join home domain) = none :=
  pathFault?_of_join (Path.isAbsolute_of_not_mem configFileName_names.2) (domainDirectory_spec placed.located).2 sound

end Placed

/-- Where nothing is below a directory, no link is. -/
theorem unlinked_of_bare (inside : files.hasDirectory base = true)
    (bare : ∀ place, place ≠ [] → files.node? (base ++ place) = none) (way : List String) :
    files.Unlinked base way := by
  intro front _ target found
  by_cases top : front = []
  · rw [top, List.append_nil] at found
    exact not_link_of_hasDirectory inside found
  · rw [bare front top] at found
    cases found

/-- Where nothing is below the base yet, the directory of a domain is created without settings. -/
theorem ensureDirectories_of_bare (based : files.Based home base [])
    (bare : ∀ place, place ≠ [] → files.node? (base ++ place) = none)
    (located : domainDirectory home domain = .ok (Path.join home domain))
    (readable : after.Readable (settingsPath home domain))
    (made : files.ensureDirectories (Path.join home domain) = (.ok (), after)) :
    after.contents (settingsPath home domain) = .error .notFound ∧
      after.ensureDirectories (Path.join home domain) = (.ok (), after) := by
  have sound := (readable.ends (settingsPath_ne_empty home domain)).1
  have placed := based.placed located (unlinked_of_bare based.inside bare _)
  have ensured := placed.ensured (placed.sound_directory sound)
  rw [made] at ensured
  have isOpen := ensured.isOpen rfl
  have after := placed.grows ensured.grows
  refine ⟨?_, after.ensureDirectories_of_open (placed.sound_directory sound) isOpen⟩
  -- The settings file is behind all directories that were made.
  rw [contents, after.stat_of_open sound isOpen, ensured.node?_apart not_concat_prefix, bare _ (by simp)]

end ConfigStore
