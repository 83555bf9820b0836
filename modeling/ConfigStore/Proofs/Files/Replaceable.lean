import ConfigStore.Proofs.Files.Below
import ConfigStore.Proofs.Files.Permissions

/-! What it takes to replace a file: a path that ends in a name in a directory, by which there is no directory, and a path
for a temporary file beside it that is not too long. Without trouble, nothing but a temporary name that is taken can keep
a file from being replaced then. -/

namespace ConfigStore

namespace FileSystem

variable {files : FileSystem} {path target name : String} {directory place : Location} {content : List UInt8}

/-- A walk along the path of a directory goes on behind it by a relative path. -/
theorem Runs.behind {base other : String} {here : Option Location} {budget links : Nat}
    (run : files.Runs true ⟨budget, here, Path.pieces base⟩ ⟨links, some place, []⟩) (filled : base ≠ "")
    (relative : Path.isAbsolute other = false) :
    ∃ front fewer, Path.pieces (Path.join base other) = front ++ Path.pieces other ∧
      files.Runs true ⟨budget, here, front⟩ ⟨fewer, some place, []⟩ := by
  obtain ⟨front, joined, ⟨empty, -⟩ | same | closed⟩ := Path.pieces_join base relative
  · exact absurd empty filled
  · exact ⟨front, links, joined, same ▸ run⟩
  · -- The slash at the end of the base leads nowhere else.
    rw [closed] at run
    obtain ⟨fewer, there, before, slash⟩ := run.split (Nat.zero_le _)
    obtain rfl := slash.voids (by decide)
    exact ⟨front, fewer, joined, before⟩

/-- The directory in which a path is replaced begins where the path does, and the pieces in front of the path's name lead
there. -/
theorem Entry.replacedDirectory (entry : files.Entry path directory name) {start : Location}
    (starts : files.start path = some start) (inside : files.hasDirectory start = true) :
    replacedDirectory path ≠ "" ∧ Path.isAbsolute (replacedDirectory path) = Path.isAbsolute path ∧
      ∃ links, files.Runs true ⟨mostLinks, some start, Path.pieces (ConfigStore.replacedDirectory path)⟩
        ⟨links, some directory, []⟩ := by
  obtain ⟨front, links, whole, run⟩ := entry.run
  obtain ⟨parent, solid, voids, rfl, above⟩ := Path.exists_above whole entry.names
  obtain ⟨fewer, there, before, behind⟩ := run.split (Nat.zero_le _)
  obtain rfl := behind.voids above.void
  rw [starts] at before
  have shown := above.join "x" (by decide)
  rw [ConfigStore.replacedDirectory, above.found]
  simp only
  by_cases empty : parent.isEmpty = true
  · -- Nothing is above, and the directory is the one in which the path starts.
    obtain rfl := String.isEmpty_iff.1 empty
    have lone : Path.pieces (Path.join "" "x") = [] ++ Path.pieces "x" := by decide
    obtain rfl := List.append_cancel_right (lone.symm.trans shown)
    rw [if_pos empty, ← above.absolute]
    refine ⟨by decide, by decide, fewer, ?_⟩
    have point : Path.pieces "." = ["."] := by decide
    rw [point]
    exact .head (.void inside (by decide)) before
  · rw [if_neg empty]
    refine ⟨fun same => empty (String.isEmpty_iff.2 same), above.absolute, ?_⟩
    have relative : Path.isAbsolute "x" = false := by decide
    obtain ⟨lead, joined, ⟨same, -⟩ | same | closed⟩ := Path.pieces_join parent relative
    · exact absurd (String.isEmpty_iff.2 same) empty
    · obtain rfl := List.append_cancel_right (joined.symm.trans shown)
      exact ⟨fewer, same ▸ before⟩
    · -- A slash at the end is passed over in the directory.
      obtain rfl := List.append_cancel_right (joined.symm.trans shown)
      rw [closed]
      exact ⟨fewer, (before.append (.inr rfl)).tail (.void entry.inside (by decide))⟩

/-- When something is found below the directory in which relative paths start, its names are not too long. -/
theorem Anchored.short_workDir (anchored : files.Anchored) (kept : files.lost = none) {followLast : Bool} {links : Nat}
    {more : List String} (filled : ∃ piece ∈ more, piece ≠ "") {result : Place}
    (ends : files.Ends followLast ⟨links, some [], ("" :: files.workDir) ++ more⟩ (.ok result)) :
    ∀ name ∈ files.workDir, name.utf8ByteSize ≤ mostNameBytes := by
  have named : Path.namesOf ("" :: files.workDir) = files.workDir := by
    rw [Path.namesOf_cons_void (by decide), Path.namesOf_of_names fun name member => (anchored.names kept name member).1]
  have level : ".." ∉ "" :: files.workDir := by
    intro member
    rcases List.mem_cons.1 member with same | inner
    · exact absurd same (by decide)
    · exact (anchored.names kept _ inner).1.down rfl
  have unlinked : files.Unlinked [] (Path.namesOf ("" :: files.workDir)) := by
    rw [named]
    rintro front ⟨back, split⟩ target
    exact not_link_of_hasDirectory (anchored.directories kept front back split.symm)
  -- A walk that finds something has gone through all of them.
  cases walks anchored.root level unlinked filled with
  | through isOpen =>
    rw [named] at isOpen
    exact isOpen.short
  | missing _ stops => cases ends.unique (stops _ _)
  | blocked _ _ _ stops => cases ends.unique (stops _ _)

/-- The directory in which a path is replaced has an absolute path, unless the path starts in a directory that has been
taken away. -/
theorem Entry.exists_absolute (entry : files.Entry path directory name) (anchored : files.Anchored)
    (reachable : Path.isAbsolute path = true ∨ files.lost = none) :
    ∃ base, files.absolute? (ConfigStore.replacedDirectory path) = some base := by
  rw [absolute?]
  by_cases absolute : Path.isAbsolute path = true
  · have starts : files.start path = some [] := by rw [start, if_pos absolute]
    obtain ⟨-, same, -⟩ := entry.replacedDirectory starts anchored.root
    exact ⟨_, if_pos (same.trans absolute)⟩
  · have kept := reachable.resolve_left absolute
    split
    · exact ⟨_, rfl⟩
    · rw [kept, Option.isSome_none, if_neg (by decide)]
      exact ⟨_, rfl⟩

/-- The absolute path of a relative directory has the names of the directory in which it starts in front. -/
theorem Anchored.absolute?_of_relative (anchored : files.Anchored) {base inner : String}
    (relative : Path.isAbsolute inner = false) (whole : files.absolute? inner = some base) :
    files.lost = none ∧ Path.isAbsolute base = true ∧
      Path.pieces base = "" :: files.workDir ++ Path.pieces inner := by
  rw [absolute?, if_neg (by simp [relative])] at whole
  split at whole
  · cases whole
  · next stays =>
    have kept : files.lost = none := by simpa using stays
    have own := anchored.names kept
    obtain rfl := Option.some.inj whole
    refine ⟨kept, (Path.isAbsolute_join relative).trans (isAbsolute_placePath _), ?_⟩
    exact pieces_join_placePath (fun name member => (own name member).2) (fun name member => (own name member).1.ne_empty)
      relative

/-- The names of the directory in which relative paths start lead there, if they are not too long. -/
theorem Anchored.runs_workDir (anchored : files.Anchored) (kept : files.lost = none)
    (short : ∀ name ∈ files.workDir, name.utf8ByteSize ≤ mostNameBytes) {followLast : Bool} {links : Nat}
    (back : List String) :
    files.Runs followLast ⟨links, some [], files.workDir ++ back⟩ ⟨links, some files.workDir, back⟩ := by
  have own := anchored.names kept
  have named := Path.namesOf_of_names fun name member => (own name member).1
  have isOpen : files.Open [] (Path.namesOf files.workDir) := by
    rw [named]
    refine ⟨short, fun front within => ?_⟩
    obtain ⟨back, split⟩ := within
    exact anchored.directories kept front back split.symm
  have run : files.Runs followLast ⟨links, some [], files.workDir ++ back⟩
      ⟨links, some ([] ++ Path.namesOf files.workDir), back⟩ := isOpen.runs fun up => (own _ up).1.down rfl
  rw [named] at run
  exact run

/-- The absolute path of the directory in which a path is replaced leads there. -/
theorem Entry.runs_absolute (entry : files.Entry path directory name) (anchored : files.Anchored)
    (reachable : Path.isAbsolute path = true ∨
      files.lost = none ∧ ∀ name ∈ files.workDir, name.utf8ByteSize ≤ mostNameBytes)
    {base : String} (whole : files.absolute? (ConfigStore.replacedDirectory path) = some base) :
    Path.isAbsolute base = true ∧
      ∃ links, files.Runs true ⟨mostLinks, some [], Path.pieces base⟩ ⟨links, some directory, []⟩ := by
  by_cases absolute : Path.isAbsolute path = true
  · have starts : files.start path = some [] := by rw [start, if_pos absolute]
    obtain ⟨-, same, run⟩ := entry.replacedDirectory starts anchored.root
    rw [absolute] at same
    rw [absolute?, if_pos same, Option.some.injEq] at whole
    exact whole ▸ ⟨same, run⟩
  · -- A relative path is put behind that of the directory in which it starts.
    obtain ⟨kept, short⟩ := reachable.resolve_left absolute
    have starts : files.start path = some files.workDir := by rw [start, if_neg absolute, kept]
    obtain ⟨-, same, links, run⟩ :=
      entry.replacedDirectory starts (anchored.directories kept files.workDir [] (List.append_nil _).symm)
    obtain ⟨-, rooted, spelled⟩ := anchored.absolute?_of_relative (same.trans (by simpa using absolute)) whole
    refine ⟨rooted, links, ?_⟩
    rw [spelled]
    exact .head (.void anchored.root (by decide)) ((anchored.runs_workDir kept short _).trans run)

/-- A name beside a path's name is in the directory of the path. -/
theorem Entry.beside (entry : files.Entry path directory name) (anchored : files.Anchored)
    (reachable : Path.isAbsolute path = true ∨
      files.lost = none ∧ ∀ name ∈ files.workDir, name.utf8ByteSize ≤ mostNameBytes)
    {base fresh : String} (whole : files.absolute? (ConfigStore.replacedDirectory path) = some base)
    (names : Path.Names fresh) (plain : '/' ∉ fresh.toList) (short : fresh.utf8ByteSize ≤ mostNameBytes) :
    files.Entry (Path.join base fresh) directory fresh := by
  have relative := Path.isAbsolute_of_not_mem plain
  obtain ⟨rooted, links, run⟩ := entry.runs_absolute anchored reachable whole
  have filled : base ≠ "" := by
    rintro rfl
    exact absurd rooted (by decide)
  obtain ⟨front, fewer, shown, run⟩ := run.behind filled relative
  rw [Path.pieces_of_not_mem plain] at shown
  refine ⟨names, short, entry.inside, front, fewer, shown, ?_⟩
  rw [start, if_pos ((Path.isAbsolute_join relative).trans rooted)]
  exact run

/-- What it takes to replace the file of a path by way of a target. -/
structure Replaceable (files : FileSystem) (path target : String) (directory : Location) (name : String) : Prop where
  /-- The target is to be replaced. -/
  replaced : replacedPath files path {} = .ok target
  /-- It has no fault of its own. -/
  sound : pathFault? target = none
  /-- It ends in a name in a directory. -/
  entry : files.Entry target directory name
  /-- No directory is by the name. -/
  plain : files.hasDirectory (directory ++ [name]) = false
  /-- The directory can be reached from the root. -/
  reachable : Path.isAbsolute target = true ∨
    files.lost = none ∧ ∀ name ∈ files.workDir, name.utf8ByteSize ≤ mostNameBytes
  /-- The path of a temporary file has no fault. -/
  temporary : ∀ drawn, pathFault? (files.temporaryPath (ConfigStore.replacedDirectory target) drawn) = none

/-- A file is moved over what is no directory. -/
theorem rename_of_entry {source : Location} {node : Node} (entry : files.Entry path directory name)
    (sound : pathFault? path = none) (plain : files.hasDirectory (directory ++ [name]) = false)
    (found : files.node? source = some node) :
    files.rename source path = .ok ((files.erase source).put (directory ++ [name]) node) := by
  obtain ⟨front, links, whole, -⟩ := entry.run
  -- No slash is behind the name.
  obtain ⟨left, shown, kind⟩ := exists_openPieces whole entry.names.solid (by simp)
  obtain ⟨empties, spelled, -⟩ := openPieces_append path
  have count := congrArg List.length spelled
  rw [whole, shown] at count
  simp only [List.length_append, List.length_cons, List.length_nil] at count
  obtain rfl : left = [] := List.eq_nil_of_length_eq_zero (by omega)
  have named : (openPieces path).getLast?.any (fun name => !Path.isVoid name && name != "..") = true := by
    rw [shown]
    simp [entry.names.solid, entry.names.down]
  have open_ : ¬(openPieces path).length < (Path.pieces path).length := by
    rw [shown, whole]
    exact Nat.lt_irrefl _
  have leads := entry.resolve sound (.inl rfl)
  rw [← (resolveEntry_of_name files named open_).1] at leads
  rw [rename, leads]
  simp only [named]
  cases there : files.node? (directory ++ [name]) with
  | none => simp [found, Nat.not_lt.1 open_]
  | some old => simp [found, plain, Nat.not_lt.1 open_]

/-- All temporary names are as long, so a path with one has a fault if it has one with another. -/
theorem pathFault?_join_temporary (base : String) (drawn other : TemporaryName) :
    pathFault? (Path.join base drawn.text) = pathFault? (Path.join base other.text) := by
  obtain ⟨front, shown⟩ : ∃ front : String, ∀ drawn : TemporaryName, Path.join base drawn.text = front ++ drawn.text := by
    by_cases closed : (base.isEmpty || base.toList.getLast? == some '/') = true
    · refine ⟨base, fun drawn => ?_⟩
      rw [Path.join, if_neg (by simp [Path.isAbsolute_of_not_mem drawn.not_mem_slash]), if_pos closed]
    · refine ⟨base ++ "/", fun drawn => ?_⟩
      rw [Path.join, if_neg (by simp [Path.isAbsolute_of_not_mem drawn.not_mem_slash]), if_neg closed]
  have clean : ∀ drawn : TemporaryName, (drawn.text.toList.all (· != '\x00')) = true := by
    intro drawn
    rw [List.all_eq_true]
    intro char member
    have other : char ≠ '\x00' := by
      rintro rfl
      exact drawn.not_mem_text (by decide) (by decide) member
    simpa using other
  have filled : ∀ drawn : TemporaryName, front ++ drawn.text ≠ "" := by
    intro drawn empty
    have bytes := congrArg String.utf8ByteSize empty
    rw [String.utf8ByteSize_append, drawn.utf8ByteSize_text, String.utf8ByteSize_empty] at bytes
    omega
  rw [shown, shown, pathFault?, pathFault?, if_neg (filled drawn), if_neg (filled other), String.toList_append,
    String.toList_append, List.all_append, List.all_append, clean drawn, clean other, String.utf8ByteSize_append,
    String.utf8ByteSize_append, drawn.utf8ByteSize_text, other.utf8ByteSize_text]

/-- The directory in which a path is replaced begins at the root only if the path does. -/
theorem isAbsolute_replacedDirectory {front : List String} (whole : Path.pieces path = front ++ [name])
    (names : Path.Names name) (absolute : Path.isAbsolute (ConfigStore.replacedDirectory path) = true) :
    Path.isAbsolute path = true := by
  -- What is above the path begins where the path does.
  obtain ⟨parent, solid, voids, -, above⟩ := Path.exists_above whole names
  rw [ConfigStore.replacedDirectory, above.found] at absolute
  simp only at absolute
  split at absolute
  · exact absurd absolute (by decide)
  · rw [← above.absolute]
    exact absolute

/-- A temporary file beside a path is created behind a directory that can be reached, by a path that is not too long. -/
theorem createTemporary_reached {temporary : Location} {created : FileSystem} {drawn : TemporaryName}
    (anchored : files.Anchored) (entry : files.Entry target directory name)
    (done : files.createTemporary (ConfigStore.replacedDirectory target) drawn = .ok (temporary, created)) :
    (∀ other, pathFault? (files.temporaryPath (ConfigStore.replacedDirectory target) other) = none) ∧
      (Path.isAbsolute target = true ∨
        files.lost = none ∧ ∀ name ∈ files.workDir, name.utf8ByteSize ≤ mostNameBytes) := by
  have relative := Path.isAbsolute_of_not_mem drawn.not_mem_slash
  rw [createTemporary] at done
  cases whole : files.absolute? (ConfigStore.replacedDirectory target) with
  | none => simp [whole] at done
  | some base =>
    simp only [whole, temporaryPath, Option.getD_some] at done
    simp only [whole, temporaryPath, Option.getD_some]
    cases found : files.resolve false (Path.join base drawn.text) with
    | error fault => simp [found] at done
    | ok place =>
      refine ⟨fun other => (pathFault?_join_temporary base other drawn).trans (pathFault?_of_resolve found), ?_⟩
      by_cases absolute : Path.isAbsolute target = true
      · exact .inl absolute
      · obtain ⟨front, links, shown, -⟩ := entry.run
        have above : Path.isAbsolute (ConfigStore.replacedDirectory target) = false := by
          simpa using mt (isAbsolute_replacedDirectory shown entry.names) absolute
        obtain ⟨kept, rooted, spelled⟩ := anchored.absolute?_of_relative above whole
        -- Whatever comes behind, the names of the directory come first.
        obtain ⟨more, ahead⟩ := Path.exists_ahead spelled (Path.pieces_ne_nil _) relative
        rw [Path.pieces_of_not_mem drawn.not_mem_slash, List.append_assoc] at ahead
        have ends : files.Ends false _ _ := resolvePieces_ends (pathFault?_of_resolve found)
          (Path.pieces (Path.join base drawn.text))
        have starts : files.start (Path.join base drawn.text) = some [] := by
          rw [start, if_pos ((Path.isAbsolute_join relative).trans rooted)]
        rw [← resolve, found, ahead, starts] at ends
        have filled : ∃ piece ∈ more ++ [drawn.text], piece ≠ "" :=
          ⟨_, List.mem_append_right _ List.mem_cons_self, drawn.names.ne_empty⟩
        exact .inr ⟨kept, anchored.short_workDir kept filled ends⟩

/-- Where all is there that it takes to replace a file, the temporary file is created beside it, unless its name is
taken. -/
theorem Replaceable.createTemporary (takes : files.Replaceable path target directory name) (anchored : files.Anchored)
    (drawn : TemporaryName) :
    files.createTemporary (ConfigStore.replacedDirectory target) drawn = match files.node? (directory ++ [drawn.text]) with
      | some _ => .error .exists
      | none => .ok (directory ++ [drawn.text], files.put (directory ++ [drawn.text]) (.file Node.fileMode [])) := by
  have sound := takes.temporary drawn
  obtain ⟨base, whole⟩ := takes.entry.exists_absolute anchored (takes.reachable.imp_right And.left)
  have beside := takes.entry.beside anchored takes.reachable whole drawn.names drawn.not_mem_slash drawn.short
  rw [temporaryPath, whole, Option.getD_some] at sound
  have leads := beside.resolve sound (.inl rfl)
  rw [FileSystem.createTemporary, whole]
  simp only [temporaryPath, whole, Option.getD_some, leads]
  cases files.node? (directory ++ [drawn.text]) with
  | none => rfl
  | some node => rfl

end FileSystem

open FileSystem

variable {files after : FileSystem} {path target name : String} {directory : Location} {content : List UInt8}
  {drawn : TemporaryName}

/-- When a file was replaced, all was there that it takes, and the new bytes are by the name. -/
theorem exists_replaceable (anchored : files.Anchored)
    (done : replaceFile files path content { temporary := drawn } = (.ok target, after)) :
    ∃ directory name, files.Replaceable path target directory name ∧
      after = files.put (directory ++ [name]) (.file (takenMode files target) content) := by
  obtain ⟨replaced, sound, directory, name, entry, plain, written⟩ := replaceFile_spec done
  rcases replaceFile_cases files path content { temporary := drawn } with
    ⟨error, failed⟩ | ⟨aim, temporary, created, moved, -, creates, -, own⟩
  · rw [failed] at done
    cases done
  · rw [own] at done
    cases done
    obtain ⟨free, reachable⟩ := createTemporary_reached anchored entry creates
    exact ⟨directory, name, ⟨replaced, sound, entry, plain, reachable, free⟩, written⟩

/-- Where all is there that it takes, a file is replaced, unless the temporary name is taken. -/
theorem FileSystem.Replaceable.replaceFile (takes : files.Replaceable path target directory name)
    (anchored : files.Anchored) (content : List UInt8) (drawn : TemporaryName) :
    ConfigStore.replaceFile files path content { temporary := drawn } = match files.node? (directory ++ [drawn.text]) with
      | some _ => (.error (.file (replacedDirectory target) .exists), files)
      | none => (.ok target, files.put (directory ++ [name]) (.file (takenMode files target) content)) := by
  have creates := takes.createTemporary anchored drawn
  cases free : files.node? (directory ++ [drawn.text]) with
  | some node =>
    rw [free] at creates
    rw [ConfigStore.replaceFile, takes.replaced]
    simp only [amid, creates]
  | none =>
    rw [free] at creates
    have entry := takes.entry
    have somewhere := isSome_of_hasDirectory entry.inside
    have same := fun node => sameBut_put entry.inside drawn.text node
    have blind := blind_of_absent free
    have mode : takenMode (files.put (directory ++ [drawn.text]) (.file Node.fileMode content)) target =
        takenMode files target := (same _).takenMode free (node?_put_self ..) target
    have taken : takePermissions {} (files.put (directory ++ [drawn.text]) (.file Node.fileMode content))
        (directory ++ [drawn.text]) target content =
          .ok (files.put (directory ++ [drawn.text]) (.file (takenMode files target) content)) := by
      rw [← mode, takePermissions, if_neg (by decide), takenMode]
      cases (files.put (directory ++ [drawn.text]) (.file Node.fileMode content)).stat target with
      | error fault => rfl
      | ok node => simp only [amid, put_put]
    have plain : (files.put (directory ++ [drawn.text]) (.file (takenMode files target) content)).hasDirectory
        (directory ++ [name]) = false := by
      by_cases own : directory ++ [name] = directory ++ [drawn.text]
      · rw [own]
        exact hasDirectory_of_node (node?_put_self ..)
      · rw [(same _).hasDirectory own]
        exact takes.plain
    -- The temporary file is moved over what is by the name, and is gone then.
    have moved := rename_of_entry ((same (.file (takenMode files target) content)).entry blind entry) takes.sound plain
      (node?_put_self ..)
    rw [ConfigStore.replaceFile, takes.replaced]
    simp only [amid, creates, put_put, taken, moved]
    rw [erase_put somewhere, erase_of_absent free]

end ConfigStore
