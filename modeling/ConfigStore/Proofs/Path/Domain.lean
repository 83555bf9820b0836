import ConfigStore.Path.Domain
import ConfigStore.Proofs.Path.Pieces

/-! A domain's directory is below the configuration home: its pieces are those of the home and then those of the domain,
none of which leads upwards. The domain is checked step by step and the path is put together as text, which comes to the
same. -/

namespace ConfigStore

namespace Path

variable {path : String}

/-- A path has the root among its steps when it begins with a slash. -/
theorem root_mem_components : .root ∈ components path ↔ isAbsolute path = true := by
  -- No piece stands for the root.
  have pieceless : ∀ piece, Component.ofPiece? piece ≠ some .root := by
    intro piece
    rw [Component.ofPiece?]
    split
    · simp
    · split <;> simp
  have behind : .root ∉ (pieces path).filterMap Component.ofPiece? := by
    intro member
    obtain ⟨piece, -, same⟩ := List.mem_filterMap.1 member
    exact pieceless piece same
  rw [components, List.mem_append, or_iff_left behind, Option.mem_toList, lead?, isAbsolute, beq_iff_eq]
  split
  · next rest spelled => simp [spelled]
  · next spelled => simp [spelled]
  · next rest spelled => simp [spelled]
  · next relative _ _ =>
    -- Anything else begins with no slash.
    cases spelled : path.toList with
    | nil => simp
    | cons first rest =>
      have other : first ≠ '/' := by
        rintro rfl
        exact relative rest spelled
      simp [other]

/-- A path has a way upwards among its steps when one of its pieces leads there. -/
theorem up_mem_components : .up ∈ components path ↔ ".." ∈ pieces path := by
  -- What a path begins with is no way upwards.
  have leadless : lead? path ≠ some .up := by
    rw [lead?]
    split <;> simp
  rw [components, List.mem_append, Option.mem_toList, or_iff_right leadless, List.mem_filterMap]
  constructor
  · rintro ⟨piece, member, same⟩
    rw [Component.ofPiece?] at same
    split at same
    · cases same
    · split at same
      · next up => exact up ▸ member
      · cases same
  · intro member
    exact ⟨"..", member, by decide⟩

/-- The names of a path behind another are those of the two paths one after the other. -/
theorem names_join (base : String) (relative : isAbsolute path = false) :
    names (join base path) = names base ++ names path := by
  obtain ⟨front, joined, kind⟩ := pieces_join base relative
  -- What may be missing of the base is an empty piece, which names nothing.
  have same : front.filter (fun piece => !isVoid piece) = names base := by
    rcases kind with ⟨rfl, rfl⟩ | open_ | closed
    · decide
    · rw [names, open_]
    · rw [names, closed, List.filter_append]
      exact (List.append_nil _).symm
  calc
    names (join base path) = (front ++ pieces path).filter fun piece => !isVoid piece := by rw [names, joined]
    _ = names base ++ (pieces path).filter fun piece => !isVoid piece := by rw [List.filter_append, same]

end Path

variable {home domain directory : String}

/-- A domain is without fault when it is not empty, begins with no slash and has no piece that leads upwards. -/
theorem domainFault?_eq_none_iff :
    domainFault? domain = none ↔ domain ≠ "" ∧ Path.isAbsolute domain = false ∧ ".." ∉ Path.pieces domain := by
  -- Of the steps, only the root and a way upwards are faults.
  have faultless : (∀ step ∈ Path.components domain, step.fault? = none) ↔
      .root ∉ Path.components domain ∧ .up ∉ Path.components domain := by
    constructor
    · intro never
      exact ⟨fun root => (by cases never _ root), fun up => (by cases never _ up)⟩
    · rintro ⟨relative, down⟩ step member
      cases step with
      | root => exact absurd member relative
      | current => rfl
      | up => exact absurd member down
      | named name => rfl
  rw [domainFault?]
  by_cases empty : domain = ""
  · simp [empty]
  · rw [if_neg (by simpa using empty), List.findSome?_eq_none_iff, faultless, Path.root_mem_components,
      Path.up_mem_components, Bool.not_eq_true]
    exact (and_iff_right empty).symm

/-- A domain has a directory when it is without fault, and then that is the domain's path below the home. -/
theorem domainDirectory_eq_ok_iff :
    domainDirectory home domain = .ok directory ↔ domainFault? domain = none ∧ directory = Path.join home domain := by
  rw [domainDirectory]
  cases domainFault? domain with
  | none => simp [eq_comm]
  | some fault => simp

/-- A domain has a settings file when it has a directory, and then that is by its name in the directory. -/
theorem configFile_eq_ok_iff {file : String} : configFile home domain = .ok file ↔
    ∃ directory, domainDirectory home domain = .ok directory ∧ file = Path.join directory configFileName := by
  rw [configFile]
  cases domainDirectory home domain with
  | error fault => simp [Except.map]
  | ok directory => simp [Except.map, eq_comm]

/-- A domain's settings file has the names of the home, those of the domain, and its own. -/
theorem names_configFile {file : String} (located : configFile home domain = .ok file) :
    Path.names file = Path.names home ++ Path.names domain ++ [configFileName] := by
  obtain ⟨directory, there, rfl⟩ := configFile_eq_ok_iff.1 located
  obtain ⟨sound, rfl⟩ := domainDirectory_eq_ok_iff.1 there
  have relative := (domainFault?_eq_none_iff.1 sound).2.1
  have own : Path.names configFileName = [configFileName] := by decide
  rw [Path.names_join _ (by decide), Path.names_join _ relative, own]

/-- A domain never leaves the home. It has a directory and a settings file exactly if it is not empty, begins with no
slash and has no piece that leads upwards. Then the names of its directory are those of the home and its own, the
settings file adds only the file's name, both are absolute exactly when the home is, and no other domain has a settings
file of the same names unless its own names are the same. -/
theorem domainDirectory_stays (home domain : String) :
    ((∃ directory, domainDirectory home domain = .ok directory) ↔
      domain ≠ "" ∧ domain.toList.head? ≠ some '/' ∧ ".." ∉ Path.pieces domain) ∧
    ((∃ file, configFile home domain = .ok file) ↔ ∃ directory, domainDirectory home domain = .ok directory) ∧
    (∀ directory, domainDirectory home domain = .ok directory →
      Path.names directory = Path.names home ++ Path.names domain ∧
      Path.isAbsolute directory = Path.isAbsolute home) ∧
    (∀ directory file, domainDirectory home domain = .ok directory → configFile home domain = .ok file →
      Path.names file = Path.names directory ++ [configFileName] ∧ Path.isAbsolute file = Path.isAbsolute home) ∧
    ∀ other file otherFile, configFile home domain = .ok file → configFile home other = .ok otherFile →
      Path.names file = Path.names otherFile → Path.names domain = Path.names other := by
  have begins : Path.isAbsolute domain = false ↔ domain.toList.head? ≠ some '/' := by
    rw [Path.isAbsolute, beq_eq_false_iff_ne]
  refine ⟨?_, ?_, ?_, ?_, ?_⟩
  · rw [← begins, ← domainFault?_eq_none_iff]
    simp only [domainDirectory_eq_ok_iff, exists_and_left, exists_eq, and_true]
  · simp only [configFile_eq_ok_iff]
    constructor
    · rintro ⟨file, directory, there, -⟩
      exact ⟨directory, there⟩
    · rintro ⟨directory, there⟩
      exact ⟨_, directory, there, rfl⟩
  · intro directory there
    obtain ⟨sound, rfl⟩ := domainDirectory_eq_ok_iff.1 there
    have relative := (domainFault?_eq_none_iff.1 sound).2.1
    exact ⟨Path.names_join home relative, Path.isAbsolute_join relative⟩
  · intro directory file there located
    obtain ⟨same, found, rfl⟩ := configFile_eq_ok_iff.1 located
    obtain ⟨sound, rfl⟩ := domainDirectory_eq_ok_iff.1 there
    obtain ⟨-, rfl⟩ := domainDirectory_eq_ok_iff.1 found
    have relative := (domainFault?_eq_none_iff.1 sound).2.1
    -- The file's name is a path of its own, which is relative as well.
    have named : Path.isAbsolute configFileName = false := by decide
    have own : Path.names configFileName = [configFileName] := by decide
    exact ⟨by rw [Path.names_join _ named, own], (Path.isAbsolute_join named).trans (Path.isAbsolute_join relative)⟩
  · intro other file otherFile located located' same
    rw [names_configFile located, names_configFile located', List.append_cancel_right_eq] at same
    exact List.append_cancel_left same

/-- Points and slashes within a domain change nothing of that, and a name may begin with two points. -/
theorem domainDirectory_stays_dotted :
    domainDirectory "/base/" "./a//..b/." = .ok "/base/./a//..b/." ∧
      Path.names "/base/./a//..b/." = ["base", "a", "..b"] ∧ Path.isAbsolute "/base/./a//..b/." = true := by
  have located : domainDirectory "/base/" "./a//..b/." = .ok "/base/./a//..b/." := by decide
  have stays := (domainDirectory_stays "/base/" "./a//..b/.").2.2.1 _ located
  exact ⟨located, stays.1.trans (by decide), stays.2.trans (by decide)⟩

end ConfigStore
