import ConfigStore.Proofs.Files.Directories
import ConfigStore.Proofs.Files.Target

/-! A file that was replaced is read back, and the directories above it are still there. -/

namespace ConfigStore

namespace FileSystem

/-- A path leads to a name in a directory, by which there is no directory. -/
structure Aims (files : FileSystem) (path : String) (directory : Location) (name : String) : Prop where
  /-- The name names something. -/
  names : Path.Names name
  /-- The name is not too long. -/
  short : name.utf8ByteSize ≤ mostNameBytes
  /-- The directory is there. -/
  inside : files.hasDirectory directory = true
  /-- No other one is at the end. -/
  plain : files.hasDirectory (directory ++ [name]) = false
  /-- A walk along the path comes by the name in the directory. -/
  run : ∃ links, files.Runs true ⟨mostLinks, files.start path, Path.pieces path⟩ ⟨links, some directory, [name]⟩

namespace Aims

variable {files : FileSystem} {path last name : String} {above : List String} {directory : Location}

/-- A path leads to the same name when something that is no directory is put there. -/
theorem put (aims : files.Aims path directory name) {result : Except FileFault Place}
    (ends : files.Ends true ⟨mostLinks, files.start path, Path.pieces path⟩ result) (fileward : files.Fileward result)
    {node : Node} (file : node.isDirectory = false) :
    (files.put (directory ++ [name]) node).Aims path directory name := by
  obtain ⟨names, short, inside, plain, links, run⟩ := aims
  have somewhere := isSome_of_hasDirectory inside
  have same : (files.put (directory ++ [name]) node).node? directory = files.node? directory :=
    node?_put_other somewhere (by simp)
  refine ⟨names, short, ?_, ?_, links, ?_⟩
  · rw [hasDirectory, same]
    exact inside
  · rw [hasDirectory, node?_put_self]
    exact file
  · exact fileward.runs_elsewhere ends run names plain rfl rfl fun place _ other =>
      seen?_congr (node?_put_other somewhere other)

/-- The bytes of the file to which a path leads are read there. -/
theorem contents (aims : files.Aims path directory name) (sound : pathFault? path = none) {mode : Nat}
    {content : List UInt8} (found : files.node? (directory ++ [name]) = some (.file mode content)) :
    files.contents path = .ok content := by
  -- From the directory, the name leads to the file, and no pieces are left.
  obtain ⟨names, short, inside, -, links, run⟩ := aims
  obtain ⟨final, more, halts⟩ : files.Ends true ⟨links, some (directory ++ [name]), []⟩
      (.ok (.found (directory ++ [name]))) := Ends.found (by rw [found]; rfl)
  have moves : files.Moves true ⟨links, some directory, [name]⟩ ⟨links, some (directory ++ [name]), []⟩ :=
    .down inside names short found (by simp)
  have ends : files.Ends true ⟨mostLinks, files.start path, Path.pieces path⟩ (.ok (.found (directory ++ [name]))) :=
    ⟨final, run.trans (.head moves more), halts⟩
  have leads : files.resolve true path = .ok (.found (directory ++ [name])) :=
    (resolvePieces_ends sound _).unique ends
  simp [FileSystem.contents, stat, leads, found]

/-- The pieces in front of the last name of such a path lead to a directory. -/
theorem runs_above (aims : files.Aims path directory name) (whole : Path.pieces path = above ++ [last])
    (own : Path.Names last) :
    ∃ links base, files.Runs true ⟨mostLinks, files.start path, above⟩ ⟨links, some base, []⟩ ∧
      files.hasDirectory base = true := by
  obtain ⟨-, -, inside, -, links, run⟩ := aims
  rw [whole] at run
  obtain ⟨fewer, there, first, second⟩ := run.split (Nat.le_refl 1)
  -- The walk is where the last name is to be looked up.
  rcases second.cases with same | ⟨next, moves, -⟩
  · cases same
    exact ⟨_, _, first, inside⟩
  · obtain ⟨base, rfl, inside⟩ := moves.of_names own
    exact ⟨fewer, base, first, inside⟩

end Aims

/-- What a relative path is put behind has no fault of its own if the whole has none, unless it is empty. -/
theorem pathFault?_of_join {base path : String} (relative : Path.isAbsolute path = false) (filled : base ≠ "")
    (sound : pathFault? (Path.join base path) = none) : pathFault? base = none := by
  -- What is put behind makes the path longer and leaves its characters.
  obtain ⟨rest, joined⟩ : ∃ rest, Path.join base path = base ++ rest := by
    rw [Path.join, if_neg (by simp [relative])]
    split
    · exact ⟨path, rfl⟩
    · exact ⟨"/" ++ path, String.append_assoc⟩
  exact pathFault?_of_append filled (joined ▸ sound)

/-- If the pieces in front of a relative path lead to a directory, what it is put behind need not be created. -/
theorem ensureDirectories_of_ahead {files : FileSystem} {base path : String} {ahead : List String} {links : Nat}
    {place : Location} (relative : Path.isAbsolute path = false) (filled : base ≠ "")
    (sound : pathFault? base = none) (spelled : Path.pieces (Path.join base path) = ahead ++ Path.pieces path)
    (run : files.Runs true ⟨mostLinks, files.start (Path.join base path), ahead⟩ ⟨links, some place, []⟩)
    (inside : files.hasDirectory place = true) : files.ensureDirectories base = (.ok (), files) := by
  rw [start_congr (Path.isAbsolute_join relative)] at run
  -- The pieces of the base are those in front, but for a slash.
  obtain ⟨front, joined, kind⟩ := Path.pieces_join base relative
  obtain rfl := List.append_cancel_right (joined.symm.trans spelled)
  rcases kind with ⟨empty, _⟩ | same | closed
  · exact absurd empty filled
  · exact ensureDirectories_of_directory sound (same ▸ run) inside
  · have more : files.Runs true ⟨mostLinks, files.start base, Path.pieces base⟩ ⟨links, some place, []⟩ := by
      rw [closed]
      exact (run.append (.inr rfl)).trans (.single (.void inside (by decide)))
    exact ensureDirectories_of_directory sound more inside

/-- Where a path leads to something by its last name, the pieces in front lead to a directory. -/
theorem Ends.runs_above {files : FileSystem} {links : Nat} {here : Option Location} {above : List String} {last : String}
    {place : Location} (ends : files.Ends true ⟨links, here, above ++ [last]⟩ (.ok (.found place)))
    (own : Path.Names last) :
    ∃ fewer directory, files.Runs true ⟨links, here, above⟩ ⟨fewer, some directory, []⟩ ∧
      files.hasDirectory directory = true := by
  obtain ⟨fewer, there, first, ⟨final, run, halts⟩⟩ := ends.split ⟨last, List.mem_singleton_self last, own.ne_empty⟩
  rcases run.cases with same | ⟨next, moves, -⟩
  · subst same
    cases halts with
    | link _ _ _ _ kept => cases kept
  · obtain ⟨directory, rfl, inside⟩ := moves.of_names own
    exact ⟨fewer, directory, first, inside⟩

end FileSystem

variable {files after : FileSystem} {path target : String} {content : List UInt8} {conditions : Conditions}

/-- When a file was replaced, the path that names it leads to its new bytes. -/
theorem replaceFile_aims (anchored : files.Anchored) {result : Except FileFault Place}
    (ends : files.Ends true ⟨mostLinks, files.start path, Path.pieces path⟩ result) (fileward : files.Fileward result)
    (done : replaceFile files path content conditions = (.ok target, after)) :
    ∃ directory name, after.Aims path directory name ∧
      after.node? (directory ++ [name]) = some (.file (conditions.troubles.takenMode files target) content) := by
  -- The walk that came by the name before the bytes were put there does so again.
  obtain ⟨replaced, -, directory, name, entry, plain, rfl⟩ := replaceFile_spec done
  have run := FileSystem.runs_of_replacedPath anchored ends fileward replaced entry plain
  have aims : files.Aims path directory name := ⟨entry.names, entry.short, entry.inside, plain, run⟩
  exact ⟨directory, name, aims.put ends fileward rfl, FileSystem.node?_put_self ..⟩

/-- When the file in a directory was replaced, its new bytes are read, and the directory need not be created. -/
theorem reread_of_replaceFile (anchored : files.Anchored) {base last : String}
    (readable : files.Readable (Path.join base last)) (filled : base ≠ "") (own : Path.Names last)
    (plain : '/' ∉ last.toList) (done : replaceFile files (Path.join base last) content conditions = (.ok target, after)) :
    after.contents (Path.join base last) = .ok content ∧ after.ensureDirectories base = (.ok (), after) := by
  have relative := Path.isAbsolute_of_not_mem plain
  obtain ⟨above, spelled, -⟩ := Path.pieces_join base relative
  rw [Path.pieces_of_not_mem plain] at spelled
  obtain ⟨sound, result, ends, fileward⟩ := readable.ends (FileSystem.ne_empty_of_names spelled own)
  obtain ⟨directory, name, aims, found⟩ := replaceFile_aims anchored ends fileward done
  refine ⟨aims.contents sound found, ?_⟩
  obtain ⟨links, place, run, inside⟩ := aims.runs_above spelled own
  rw [← Path.pieces_of_not_mem plain] at spelled
  have sound := FileSystem.pathFault?_of_join relative filled sound
  exact FileSystem.ensureDirectories_of_ahead relative filled sound spelled run inside

end ConfigStore
