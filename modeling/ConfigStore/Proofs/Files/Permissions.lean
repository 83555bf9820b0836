import ConfigStore.Proofs.Files.Reread

/-! The permissions of a file that is replaced. They are looked for at the path that is replaced, and are those of what
the path leads to that names it. -/

namespace ConfigStore

namespace FileSystem

variable {files : FileSystem} {path target name : String} {directory : Location}

/-- The permissions of the file that a path leads to, or those of a new file. -/
def permissionsOf (files : FileSystem) : Except FileFault Place → Nat
  | .ok (.found place) =>
    match files.node? place with
    | some (.file mode _) => mode
    | _ => Node.fileMode
  | _ => Node.fileMode

/-- A path that ends in a name leads to what is by the name, unless that is a link. -/
theorem Entry.stat (entry : files.Entry path directory name) (sound : pathFault? path = none)
    (solid : ∀ aim, files.node? (directory ++ [name]) ≠ some (.link aim)) :
    files.stat path = match files.node? (directory ++ [name]) with
      | none => .error .notFound
      | some node => .ok node := by
  rw [FileSystem.stat, entry.resolve sound (.inr solid)]
  cases found : files.node? (directory ++ [name]) with
  | none => rfl
  | some node => simp [found]

/-- What is read by a path that ends in a name is the link of the name. -/
theorem Entry.readLink?_iff {aim : String} (entry : files.Entry path directory name) (sound : pathFault? path = none) :
    files.readLink? path = some aim ↔ files.node? (directory ++ [name]) = some (.link aim) := by
  rw [readLink?, entry.resolve sound (.inl rfl)]
  cases found : files.node? (directory ++ [name]) with
  | none => simp
  | some node => cases node <;> simp [found]

/-- By the name in which a path without a link ends, there is a file or nothing, unless there is a directory. -/
theorem Entry.solid (entry : files.Entry path directory name) (sound : pathFault? path = none)
    (plain : files.hasDirectory (directory ++ [name]) = false) (unlinked : files.readLink? path = none) :
    files.node? (directory ++ [name]) = none ∨
      ∃ mode content, files.node? (directory ++ [name]) = some (.file mode content) := by
  -- A directory and a link are what is excluded.
  cases found : files.node? (directory ++ [name]) with
  | none => exact .inl rfl
  | some node =>
    cases node with
    | file mode content => exact .inr ⟨mode, content, rfl⟩
    | directory mode =>
      rw [hasDirectory_of_node found] at plain
      cases plain
    | link aim =>
      rw [(entry.readLink?_iff sound).2 found] at unlinked
      cases unlinked

/-- A path that is replaced although nothing is at its end leads to nothing. -/
theorem lacking_of_replacedPath {troubles : Troubles} (anchored : files.Anchored)
    (reachable : Path.isAbsolute path = true ∨ files.lost = none)
    (replaced : replacedPath files path troubles = .ok target) (missing : files.canonical path = .error .notFound)
    (sound : pathFault? target = none) :
    ∃ result, Lacking result ∧ files.Ends true ⟨mostLinks, files.start path, Path.pieces path⟩ result := by
  refine canonical_lacks anchored missing ?_ reachable
  -- The empty path is neither replaced nor that of a link.
  rintro rfl
  rcases replacedPath_cases replaced with resolved | ⟨-, ⟨-, rfl⟩ | ⟨-, aim, link, -⟩⟩
  · rw [missing] at resolved
    cases resolved
  · exact absurd sound (by decide)
  · cases link

/-- Where a file can be written through a path, the path's walk comes to a file or to nothing. -/
theorem fileward_of_replacedPath {troubles : Troubles} (anchored : files.Anchored)
    (reachable : Path.isAbsolute path = true ∨ files.lost = none)
    (replaced : replacedPath files path troubles = .ok target) (sound : pathFault? target = none)
    (entry : files.Entry target directory name) (plain : files.hasDirectory (directory ++ [name]) = false) :
    ∃ result, files.Ends true ⟨mostLinks, files.start path, Path.pieces path⟩ result ∧ files.Fileward result := by
  rcases replacedPath_cases replaced with resolved | ⟨missing, -⟩
  · -- The path without links is that of the file.
    obtain ⟨-, ends, mode, content, found⟩ := runs_of_canonical anchored resolved entry plain
    refine ⟨_, ends, by simp, ?_⟩
    intro place same
    cases same
    exact ⟨mode, content, found⟩
  · obtain ⟨result, lacking, ends⟩ := lacking_of_replacedPath anchored reachable replaced missing sound
    exact ⟨result, ends, .of_lacking lacking⟩

/-- A path through which a file can be written has no fault of its own but its length. -/
theorem pathFault?_of_replacedPath {troubles : Troubles}
    (replaced : replacedPath files path troubles = .ok target) (sound : pathFault? target = none)
    (short : path.utf8ByteSize < pathBound) : pathFault? path = none := by
  rcases replacedPath_cases replaced with resolved | ⟨-, ⟨-, rfl⟩ | ⟨-, aim, link, -⟩⟩
  · -- Neither a NUL nor the empty path comes to anything.
    rw [canonical] at resolved
    split at resolved
    · next clean =>
      split at resolved
      · cases resolved
      · next filled => rw [pathFault?, if_pos clean, if_neg filled, if_neg (Nat.not_le.2 short)]
    · cases resolved
  · exact sound
  · -- A path that is too long is not that of a link either.
    rw [readLink?] at link
    split at link
    · next leads => exact pathFault?_of_resolve leads
    · cases link

/-- A link whose path ends where something is missing names a path that leads to nothing either. -/
theorem stat_beside {base : Location} {last aim : String} {result : Except FileFault Place}
    (link : files.Entry path base last) (found : files.node? (base ++ [last]) = some (.link aim))
    (ends : files.Ends true ⟨mostLinks, files.start path, Path.pieces path⟩ result) (lacking : Lacking result)
    (sound : pathFault? (Path.beside path aim) = none) (entry : files.Entry (Path.beside path aim) directory name)
    (node : Node) : files.stat (Path.beside path aim) ≠ .ok node := by
  intro told
  have walked : files.Ends true ⟨mostLinks, files.start (Path.beside path aim), Path.pieces (Path.beside path aim)⟩
      (files.resolve true (Path.beside path aim)) := resolvePieces_ends sound _
  obtain ⟨links, run⟩ := entry.runs
  have there := walked.of_runs run
  -- The walk along the path comes by the same name, and to nothing.
  obtain ⟨left, through⟩ := runs_of_link link found ends (.of_lacking lacking) entry
  have stuck := ends.of_runs through
  rw [FileSystem.stat] at told
  split at told
  · cases told
  · cases told
  · next leads =>
    rw [leads] at there
    obtain ⟨final, inner, halts⟩ := there
    obtain ⟨other, within⟩ := inner.inside rfl
    cases halts with
    | lost => cases within
  · next place leads =>
    rw [leads] at there
    rcases there.afford left with again | tooMany
    · rcases lacking with rfl | ⟨_, _, rfl⟩ <;> cases stuck.unique again
    · rcases lacking with rfl | ⟨_, _, rfl⟩ <;> cases stuck.unique tooMany

end FileSystem

/-- The permissions that are taken over from the replaced path are those of the file that the path leads to, however long
the path is. -/
theorem takenMode_eq {files : FileSystem} {path target name : String} {directory : Location} {troubles : Troubles}
    (anchored : files.Anchored) (reachable : Path.isAbsolute path = true ∨ files.lost = none)
    (replaced : replacedPath files path troubles = .ok target) (sound : FileSystem.pathFault? target = none)
    (entry : files.Entry target directory name) (plain : files.hasDirectory (directory ++ [name]) = false)
    {result : Except FileFault Place}
    (ends : files.Ends true ⟨mostLinks, files.start path, Path.pieces path⟩ result) :
    takenMode files target = files.permissionsOf result := by
  rcases FileSystem.replacedPath_cases replaced with resolved | ⟨missing, kind⟩
  · -- Both lead to the file.
    obtain ⟨-, leads, mode, content, found⟩ := FileSystem.runs_of_canonical anchored resolved entry plain
    rw [ends.unique leads, takenMode, entry.stat sound (by simp [found])]
    simp [FileSystem.permissionsOf, found, Node.mode]
  · -- Both lead to nothing.
    obtain ⟨other, lacking, leads⟩ := FileSystem.lacking_of_replacedPath anchored reachable replaced missing sound
    obtain rfl := ends.unique leads
    have nothing : files.permissionsOf result = Node.fileMode := by
      rcases lacking with rfl | ⟨_, _, rfl⟩
      · rfl
      · rfl
    have untold : ∀ node, files.stat target ≠ .ok node := by
      rcases kind with ⟨-, rfl⟩ | ⟨-, aim, link, rfl⟩
      · -- The path is looked up as it is.
        have same : files.resolve true target = result := (FileSystem.resolvePieces_ends sound _).unique ends
        intro node told
        rw [FileSystem.stat, same] at told
        rcases lacking with rfl | ⟨_, _, rfl⟩
        · cases told
        · cases told
      · obtain ⟨base, last, there, found⟩ := FileSystem.entry_of_readLink link ends (.of_lacking lacking)
        exact FileSystem.stat_beside there found ends lacking sound entry
    rw [takenMode, nothing]
    cases told : files.stat target with
    | error fault => rfl
    | ok node => exact absurd told (untold node)

/-- When a file was replaced that could be read before, or was missing only, its new bytes are read. -/
theorem contents_of_replaceFile {files after : FileSystem} {path target : String} {content : List UInt8}
    {conditions : Conditions} (anchored : files.Anchored) (readable : files.Readable path)
    (done : replaceFile files path content conditions = (.ok target, after)) : after.contents path = .ok content := by
  obtain ⟨replaced, sound, -⟩ := replaceFile_spec done
  -- The empty path, which is missing as well, leads nowhere.
  have filled : path ≠ "" := by
    rintro rfl
    cases FileSystem.pathFault?_of_replacedPath replaced sound (by decide)
  obtain ⟨own, result, ends, fileward⟩ := readable.ends filled
  obtain ⟨directory, name, aims, found⟩ := replaceFile_aims anchored ends fileward done
  exact aims.contents own found

end ConfigStore
