import ConfigStore.Files.Operations
import ConfigStore.Proofs.Files.Grounded

/-! Directories are created where nothing is, and those that are there are left as they are. -/

namespace ConfigStore.FileSystem

variable {files : FileSystem} {followLast : Bool} {walk : Walk} {directory : Location} {name path : String}

/-- What a path leads to is at a place, or it is the directory that was taken away. -/
theorem stat_eq_ok_iff {node : Node} :
    files.stat path = .ok node ↔ (∃ mode, files.resolve true path = .ok (.lost mode) ∧ node = .directory mode) ∨
      ∃ place, files.resolve true path = .ok (.found place) ∧ files.node? place = some node := by
  rw [stat]
  cases files.resolve true path with
  | error fault => simp
  | ok place =>
    cases place with
    | missing directory name => simp
    | lost mode => simp [eq_comm]
    | found place => cases found : files.node? place <;> simp [found]

/-- A path leads to a directory at a place, or to the one that was taken away. -/
theorem isDirectory_eq_true_iff :
    files.isDirectory path = true ↔ (∃ mode, files.resolve true path = .ok (.lost mode)) ∨
      ∃ place, files.resolve true path = .ok (.found place) ∧ files.hasDirectory place = true := by
  have node : files.isDirectory path = true ↔ ∃ node, files.stat path = .ok node ∧ node.isDirectory = true := by
    rw [isDirectory]
    cases files.stat path <;> simp
  simp only [node, stat_eq_ok_iff, hasDirectory_iff]
  constructor
  · rintro ⟨node, ⟨mode, leads, -⟩ | ⟨place, leads, found⟩, directory⟩
    · exact .inl ⟨mode, leads⟩
    · exact .inr ⟨place, leads, hasDirectory_iff.1 ((hasDirectory_of_node found).trans directory)⟩
  · rintro (⟨mode, leads⟩ | ⟨place, leads, mode, found⟩)
    · exact ⟨_, .inl ⟨mode, leads, rfl⟩, rfl⟩
    · exact ⟨_, .inr ⟨place, leads, found⟩, rfl⟩

/-- A name is missing in a directory, and nothing is by the name. -/
theorem Ends.missing (ends : files.Ends followLast walk (.ok (.missing directory name))) :
    files.hasDirectory directory = true ∧ files.node? (directory ++ [name]) = none := by
  -- A walk halts there in one way only.
  obtain ⟨last, _, halts⟩ := ends
  cases halts with
  | missing inside _ _ absent _ => exact ⟨inside, absent⟩

/-- A walk that comes to the end of its pieces is not missing a name among those in front. -/
theorem Ends.not_missing {links fewer : Nat} {here there : Option Location} {front back : List String}
    (run : files.Runs true ⟨links, here, front ++ back⟩ ⟨fewer, there, []⟩) :
    ¬files.Ends false ⟨links, here, front⟩ (.ok (.missing directory name)) := by
  intro ends
  obtain ⟨last, walked, halts⟩ := ends
  obtain ⟨budget, place, first, _⟩ := run.split (Nat.zero_le _)
  -- The walk halts alike if it follows links at its end.
  have followed : files.Runs true ⟨links, here, front⟩ last :=
    Relation.ReflTransGen.mono (fun _ _ moves => moves.follow) _ _ walked
  cases halts with
  | missing inside names short absent closed =>
    -- Nothing comes behind the end of the pieces.
    rcases (first.through followed (.missing inside names short absent closed)).cases with same | ⟨next, moves, _⟩
    · cases same
    · cases moves

variable {place : Location}

/-- A directory is created where nothing is. -/
theorem makeDirectory_spec {made : FileSystem} (done : files.makeDirectory path = .ok made) :
    ∃ directory name mode, files.hasDirectory directory = true ∧ files.node? (directory ++ [name]) = none ∧
      made = files.put (directory ++ [name]) (.directory mode) := by
  -- Whatever is there stays, so there is nothing to create but what is missing.
  rw [makeDirectory] at done
  cases leads : files.resolveEntry path with
  | error fault => simp [leads] at done
  | ok place =>
    cases place with
    | found place => simp [leads] at done
    | lost mode => simp [leads] at done
    | missing directory name =>
      simp only [leads, Except.ok.injEq] at done
      have sound := pathFault?_of_resolve leads
      have ends : files.Ends false ⟨mostLinks, files.start path, openPieces path⟩ (.ok (.missing directory name)) :=
        leads ▸ resolvePieces_ends sound _
      exact ⟨directory, name, _, ends.missing.1, ends.missing.2, done.symm⟩

/-- What a system of files promises is kept when no directory goes, and relative paths start where they did. -/
theorem Anchored.mono {other : FileSystem} (anchored : files.Anchored) (lost : other.lost = files.lost)
    (workDir : other.workDir = files.workDir)
    (kept : ∀ place, files.hasDirectory place = true → other.hasDirectory place = true) : other.Anchored := by
  -- All promises are about directories that are there and the way to one of them.
  refine ⟨kept _ anchored.root, fun present front back split => ?_, fun present => ?_⟩
  · exact kept _ (anchored.directories (lost ▸ present) front back (workDir ▸ split))
  · exact workDir ▸ anchored.names (lost ▸ present)

/-- It is kept when something is put in place of what is no directory. -/
theorem Anchored.put (anchored : files.Anchored) (there : (files.node? directory).isSome)
    (plain : files.hasDirectory (directory ++ [name]) = false) (node : Node) :
    (files.put (directory ++ [name]) node).Anchored := by
  -- Directories stay, since none of them is replaced.
  refine anchored.mono (by rfl) (by rfl) fun place inside => ?_
  have apart : place ≠ directory ++ [name] := by
    intro same
    rw [← same, inside] at plain
    cases plain
  rw [hasDirectory, node?_put_other there apart]
  exact inside

/-- Creating a directory keeps it. -/
theorem Anchored.ensureDirectory (anchored : files.Anchored) (path : String) :
    (files.ensureDirectory path).2.Anchored := by
  -- The directory is created where nothing was, or nothing is done.
  rw [FileSystem.ensureDirectory]
  cases done : files.makeDirectory path with
  | error fault => exact anchored
  | ok made =>
    obtain ⟨directory, name, mode, inside, absent, rfl⟩ := makeDirectory_spec done
    exact anchored.put (isSome_of_hasDirectory inside) (hasDirectory_of_absent absent) _

/-- So does creating what is missing above it. -/
theorem Anchored.ensureShape (anchored : files.Anchored) (shape : Path.Shape) :
    (files.ensureShape shape).2.Anchored := by
  -- What is above is created first, by the same steps.
  fun_induction files.ensureShape shape with
  | case1 shape empty => exact anchored
  | case2 shape filled same fails above => exact anchored
  | case3 shape filled same fails parent above fault made failed ih =>
    rw [failed] at ih
    exact ih
  | case4 shape filled same fails parent above made done ih =>
    rw [done] at ih
    exact Anchored.ensureDirectory ih _
  | case5 shape filled other => exact anchored.ensureDirectory _

/-- A directory that is there already is not created. -/
theorem ensureDirectory_of_directory {links : Nat} (sound : pathFault? path = none)
    (run : files.Runs true ⟨mostLinks, files.start path, Path.pieces path⟩ ⟨links, some place, []⟩)
    (inside : files.hasDirectory place = true) : files.ensureDirectory path = (.ok (), files) := by
  obtain ⟨last, more, halts⟩ : files.Ends true ⟨links, some place, []⟩ (.ok (.found place)) :=
    Ends.found (isSome_of_hasDirectory inside)
  have ends : files.Ends true ⟨mostLinks, files.start path, Path.pieces path⟩ (.ok (.found place)) :=
    ⟨last, run.trans more, halts⟩
  have leads : files.resolve true path = .ok (.found place) := (resolvePieces_ends sound _).unique ends
  obtain ⟨mode, node⟩ := hasDirectory_iff.1 inside
  have there : files.isDirectory path = true := by simp [isDirectory, stat, leads, node, Node.isDirectory]
  -- Without the slashes at its end, the path is not missing either.
  obtain ⟨empties, spelled, _⟩ := openPieces_append path
  have present : ∀ directory name, files.resolveEntry path ≠ .ok (.missing directory name) := by
    intro directory name missing
    rw [spelled] at run
    have ends : files.Ends false ⟨mostLinks, files.start path, openPieces path⟩ (files.resolveEntry path) :=
      resolvePieces_ends sound _
    rw [missing] at ends
    exact Ends.not_missing run ends
  rw [FileSystem.ensureDirectory, makeDirectory]
  cases entry : files.resolveEntry path with
  | error fault => simp [there]
  | ok found =>
    cases found with
    | found place => simp [there]
    | lost mode => simp [there]
    | missing directory name => exact absurd entry (present directory name)

/-- Nor is anything above it. -/
theorem ensureShape_of_directory {shape : Path.Shape} {links : Nat} (sound : pathFault? shape.path = none)
    (run : files.Runs true ⟨mostLinks, files.start shape.path, Path.pieces shape.path⟩ ⟨links, some place, []⟩)
    (inside : files.hasDirectory place = true) : files.ensureShape shape = (.ok (), files) := by
  rw [FileSystem.ensureShape.eq_def, ensureDirectory_of_directory sound run inside]
  simp only [ite_self]

/-- A directory of a path that is there already is left as it is. -/
theorem ensureDirectories_of_directory {links : Nat} (sound : pathFault? path = none)
    (run : files.Runs true ⟨mostLinks, files.start path, Path.pieces path⟩ ⟨links, some place, []⟩)
    (inside : files.hasDirectory place = true) : files.ensureDirectories path = (.ok (), files) := by
  have same := Path.Shape.path_ofPath path
  exact ensureShape_of_directory (same.symm ▸ sound) (same.symm ▸ run) inside

end ConfigStore.FileSystem
