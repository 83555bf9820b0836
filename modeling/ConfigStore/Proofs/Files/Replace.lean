import ConfigStore.Keyfile.File
import ConfigStore.Proofs.Files.Directories
import ConfigStore.Proofs.Files.Temporary
import ConfigStore.Proofs.Path.Parent

/-! Replacing a file through a temporary one comes to putting the new bytes where the replaced path leads, and to
nothing else. Whatever name the temporary file has, no path comes by it on the way to anything else. -/

namespace ConfigStore

namespace FileSystem

variable {files other : FileSystem}

/-- Two systems of files in which the same is at every place but one. -/
structure SameBut (files other : FileSystem) (place : Location) : Prop where
  /-- Either both have lost the directory for relative paths or none has. -/
  lost : other.lost = files.lost
  /-- Relative paths start in the same directory. -/
  workDir : other.workDir = files.workDir
  /-- The same is elsewhere. -/
  elsewhere : ∀ there, there ≠ place → other.node? there = files.node? there

/-- Something that is put by a name in a directory makes a difference there only. -/
theorem sameBut_put {directory : Location} (inside : files.hasDirectory directory = true) (name : String) (node : Node) :
    SameBut files (files.put (directory ++ [name]) node) (directory ++ [name]) :=
  ⟨rfl, rfl, fun _ apart => node?_put_other (isSome_of_hasDirectory inside) apart⟩

/-- What leads nowhere else: there is nothing, or a file. -/
def Blind (files : FileSystem) (place : Location) : Prop :=
  files.hasDirectory place = false ∧ ∀ target, files.node? place ≠ some (.link target)

/-- A place where nothing is leads nowhere else. -/
theorem blind_of_absent {place : Location} (absent : files.node? place = none) : files.Blind place :=
  ⟨hasDirectory_of_absent absent, fun target found => by rw [absent] at found; cases found⟩

/-- Nor does a file. -/
theorem blind_of_file {place : Location} {mode : Nat} {content : List UInt8}
    (found : files.node? place = some (.file mode content)) : files.Blind place :=
  ⟨hasDirectory_of_node found, fun target link => by rw [found] at link; cases link⟩

namespace SameBut

variable {place directory : Location} {path name : String}

/-- None of the two is the first. -/
theorem symm (same : SameBut files other place) : SameBut other files place where
  lost := same.lost.symm
  workDir := same.workDir.symm
  elsewhere there apart := (same.elsewhere there apart).symm

/-- What is a directory elsewhere is one in both. -/
theorem hasDirectory (same : SameBut files other place) {there : Location} (apart : there ≠ place) :
    other.hasDirectory there = files.hasDirectory there := by
  rw [FileSystem.hasDirectory, same.elsewhere there apart, FileSystem.hasDirectory]

/-- Paths start in the same directory. -/
theorem start (same : SameBut files other place) (path : String) : other.start path = files.start path := by
  rw [FileSystem.start, FileSystem.start, same.lost, same.workDir]

/-- A walk that does not end at the place goes the same way in both, since it does not come by the place. -/
theorem runs {walk last : Walk} (same : SameBut files other place) (blind : files.Blind place)
    (run : files.Runs true walk last) (away : last.here ≠ some place) : other.Runs true walk last := by
  refine run.congr fun middle next _ moves behind => ⟨same.lost, same.workDir, fun there sees => ?_⟩
  refine seen?_congr (same.elsewhere there ?_)
  rintro rfl
  cases sees with
  | here =>
    -- A walk only moves from directories, and the place is none.
    exact absurd moves.inside.1 (by simp [blind.1])
  | below _ names =>
    -- By the last name of the place, the walk would come to it, and stay there.
    cases moves with
    | void _ void => exact names.not_isVoid void
    | up _ => exact names.down rfl
    | link _ _ _ found _ => exact blind.2 _ found
    | down _ _ _ _ _ =>
      rcases behind.cases with ended | ⟨second, more, -⟩
      · exact away (ended ▸ rfl)
      · exact absurd more.inside.1 (by simp [blind.1])

/-- A path ends by a name in the same directory in both. -/
theorem entry (same : SameBut files other place) (blind : files.Blind place) (entry : files.Entry path directory name) :
    other.Entry path directory name := by
  obtain ⟨names, short, inside, front, links, whole, run⟩ := entry
  have apart : directory ≠ place := by
    rintro rfl
    rw [blind.1] at inside
    cases inside
  refine ⟨names, short, (same.hasDirectory apart).trans inside, front, links, whole, ?_⟩
  rw [same.start]
  exact same.runs blind run fun here => apart (Option.some.inj here)

/-- A path that leads elsewhere in one leads there in the other. -/
theorem resolve_found (same : SameBut files other place) (blind : files.Blind place) {there : Location}
    (apart : there ≠ place) (leads : files.resolve true path = .ok (.found there)) :
    other.resolve true path = .ok (.found there) := by
  have sound := pathFault?_of_resolve leads
  have ends : files.Ends true ⟨mostLinks, files.start path, Path.pieces path⟩ (files.resolve true path) :=
    resolvePieces_ends sound _
  rw [leads, ← same.start] at ends
  obtain ⟨last, run, halts⟩ := ends
  refine (resolvePieces_ends sound _).unique ?_
  cases halts with
  | found here =>
    refine ⟨_, same.runs blind run fun own => apart (Option.some.inj own), .found ?_⟩
    rw [same.elsewhere _ apart]
    exact here
  | link _ _ _ _ kept => cases kept

/-- So does one that leads to the directory that was taken away. -/
theorem resolve_lost (same : SameBut files other place) (blind : files.Blind place) {mode : Nat}
    (leads : files.resolve true path = .ok (.lost mode)) : other.resolve true path = .ok (.lost mode) := by
  have sound := pathFault?_of_resolve leads
  have ends : files.Ends true ⟨mostLinks, files.start path, Path.pieces path⟩ (files.resolve true path) :=
    resolvePieces_ends sound _
  rw [leads, ← same.start] at ends
  obtain ⟨last, run, halts⟩ := ends
  refine (resolvePieces_ends sound _).unique ?_
  cases halts with
  | lost =>
    rw [← same.lost]
    exact ⟨_, same.runs blind run (by simp), .lost⟩

/-- What a path leads to in one is at the place, or the path leads to it in the other as well. -/
theorem stat (same : SameBut files other place) (blind : files.Blind place) {node : Node}
    (told : files.stat path = .ok node) : files.node? place = some node ∨ other.stat path = .ok node := by
  rw [stat_eq_ok_iff] at told ⊢
  rcases told with ⟨mode, leads, kind⟩ | ⟨there, leads, found⟩
  · exact .inr (.inl ⟨mode, same.resolve_lost blind leads, kind⟩)
  · by_cases own : there = place
    · exact .inl (own ▸ found)
    · exact .inr (.inr ⟨there, same.resolve_found blind own leads, (same.elsewhere there own).trans found⟩)

end SameBut

/-- A path whose last piece names something, with no slash behind it, is followed as it is. -/
theorem resolveEntry_of_name (files : FileSystem) {path : String}
    (named : (openPieces path).getLast?.any (fun name => !Path.isVoid name && name != "..") = true)
    (open_ : ¬(openPieces path).length < (Path.pieces path).length) :
    files.resolveEntry path = files.resolve false path ∧
      ∃ front name, Path.pieces path = front ++ [name] ∧ Path.Names name := by
  -- As no slash is left out, the pieces are all there, and the last one is the name.
  obtain ⟨empties, spelled, -⟩ := openPieces_append path
  have bare : empties = [] := by
    have count := congrArg List.length spelled
    rw [List.length_append] at count
    exact List.eq_nil_of_length_eq_zero (by omega)
  rw [bare, List.append_nil] at spelled
  rw [Option.any_eq_true] at named
  obtain ⟨name, last, solid⟩ := named
  obtain ⟨front, shown⟩ := List.getLast?_eq_some_iff.1 last
  simp only [Bool.and_eq_true, Bool.not_eq_true', bne_iff_ne] at solid
  exact ⟨by rw [resolveEntry, resolve, spelled], front, name, spelled.trans shown, solid.1, solid.2⟩

/-- What is moved comes to be by the name in which its new path ends, unless a directory is there. -/
theorem rename_spec {source : Location} {path : String} {after : FileSystem}
    (done : files.rename source path = .ok after) :
    pathFault? path = none ∧ ∃ directory name node, files.Entry path directory name ∧
      files.hasDirectory (directory ++ [name]) = false ∧ files.node? source = some node ∧
      after = (files.erase source).put (directory ++ [name]) node := by
  -- Whatever the new path leads to, it is what is by its last piece.
  rw [rename] at done
  cases leads : files.resolveEntry path with
  | error fault => simp [leads] at done
  | ok place =>
    simp only [leads] at done
    split at done
    · cases done
    · next named =>
      split at done
      · cases done
      · next open_ =>
        obtain ⟨same, front, name, whole, names⟩ := resolveEntry_of_name files (by simpa using named) open_
        rw [same] at leads
        refine ⟨pathFault?_of_resolve leads, ?_⟩
        cases place with
        | missing directory last =>
          obtain ⟨rfl, entry, absent⟩ := entry_of_missing whole names leads
          simp only at done
          split at done
          · cases done
          · next node found =>
            cases done
            exact ⟨directory, _, node, entry, hasDirectory_of_absent absent, found, rfl⟩
        | lost mode => cases done
        | found place =>
          obtain ⟨directory, rfl, entry⟩ := entry_of_found whole names leads
          simp only at done
          split at done
          · cases done
          · next plain =>
            split at done
            · cases done
            · next node found =>
              cases done
              exact ⟨directory, name, node, entry, by simpa using plain, found, rfl⟩

/-- A temporary file comes to be in a directory, where nothing was. -/
theorem createTemporary_spec {directory : String} {name : TemporaryName} {temporary : Location} {created : FileSystem}
    (done : files.createTemporary directory name = .ok (temporary, created)) :
    ∃ inside, temporary = inside ++ [name.text] ∧ files.hasDirectory inside = true ∧ files.node? temporary = none ∧
      created = files.put temporary (.file Node.fileMode []) := by
  rw [createTemporary] at done
  cases whole : files.absolute? directory with
  | none => simp [whole] at done
  | some base =>
    simp only [whole, temporaryPath, Option.getD_some] at done
    -- The name is the last piece of the path.
    obtain ⟨front, spelled, -⟩ := Path.pieces_join base (Path.isAbsolute_of_not_mem name.not_mem_slash)
    rw [Path.pieces_of_not_mem name.not_mem_slash] at spelled
    cases found : files.resolve false (Path.join base name.text) with
    | error fault => simp [found] at done
    | ok place =>
      cases place with
      | found place => simp [found] at done
      | lost mode => simp [found] at done
      | missing inside last =>
        simp only [found, Except.ok.injEq, Prod.mk.injEq] at done
        obtain ⟨rfl, rfl⟩ := done
        obtain ⟨rfl, entry, nothing⟩ := entry_of_missing spelled name.names found
        exact ⟨_, rfl, entry.inside, nothing, rfl⟩

/-- When a temporary file is taken away, whatever was written to it, the files are as they were. -/
theorem erase_temporary {created : FileSystem} {directory : String} {name : TemporaryName} {temporary : Location}
    (done : files.createTemporary directory name = .ok (temporary, created)) (node : Node) :
    (created.put temporary node).erase temporary = files := by
  obtain ⟨inside, rfl, isDirectory, nothing, rfl⟩ := createTemporary_spec done
  rw [put_put, erase_put (isSome_of_hasDirectory isDirectory), erase_of_absent nothing]

end FileSystem

/-- The permissions that a new file gets: those of what its path leads to, or else those of a file. -/
def takenMode (files : FileSystem) (path : String) : Nat :=
  match files.stat path with
  | .ok node => node.mode
  | .error _ => Node.fileMode

/-- The permissions that a new file gets if those of what its path leads to can be looked up. -/
def Troubles.takenMode (troubles : Troubles) (files : FileSystem) (path : String) : Nat :=
  if troubles.unseen then Node.fileMode else ConfigStore.takenMode files path

/-- A new file that is not where a path leads, or comes to be there, makes no difference to the permissions. -/
theorem FileSystem.SameBut.takenMode {files other : FileSystem} {place : Location} {content : List UInt8}
    (same : SameBut files other place) (absent : files.node? place = none)
    (new : other.node? place = some (.file Node.fileMode content)) (path : String) :
    ConfigStore.takenMode other path = ConfigStore.takenMode files path := by
  rw [ConfigStore.takenMode, ConfigStore.takenMode]
  cases told : files.stat path with
  | ok node =>
    rcases same.stat (blind_of_absent absent) told with here | again
    · rw [absent] at here
      cases here
    · rw [again]
  | error fault =>
    cases again : other.stat path with
    | error fault' => rfl
    | ok node =>
      -- Only the new file can be found where nothing was.
      rcases same.symm.stat (blind_of_file new) again with here | before
      · rw [new] at here
        cases here
        rfl
      · rw [told] at before
        cases before

/-- A temporary file gets the permissions that are to be taken over, or that fails. -/
theorem takePermissions_cases (troubles : Troubles) (made : FileSystem) (temporary : Location) (target : String)
    (content : List UInt8) :
    (∃ fault, takePermissions troubles (made.put temporary (.file Node.fileMode content)) temporary target content =
        .error fault) ∨
      takePermissions troubles (made.put temporary (.file Node.fileMode content)) temporary target content =
        .ok (made.put temporary
          (.file (troubles.takenMode (made.put temporary (.file Node.fileMode content)) target) content)) := by
  rw [takePermissions, Troubles.takenMode]
  by_cases unseen : troubles.unseen = true
  · rw [if_pos unseen, if_pos unseen]
    exact .inr rfl
  · rw [if_neg unseen, if_neg unseen, takenMode]
    cases (made.put temporary (.file Node.fileMode content)).stat target with
    | error fault => exact .inr rfl
    | ok node =>
      simp only [FileSystem.put_put]
      cases troubles.permit with
      | none => exact .inr rfl
      | some fault => exact .inl ⟨fault, rfl⟩

/-- A step comes to what it does without trouble, or fails. -/
theorem amid_cases {α : Type} (trouble : Option FileFault) (result : Except FileFault α) :
    amid trouble result = result ∨ ∃ fault, amid trouble result = .error fault := by
  cases trouble with
  | none => exact .inl rfl
  | some fault => exact .inr ⟨fault, rfl⟩

section Replaced

variable {files after : FileSystem} {path target : String} {content : List UInt8} {conditions : Conditions}

/-- A file is replaced by moving a temporary one that has its permissions over it, or the files stay as they are. -/
theorem replaceFile_cases (files : FileSystem) (path : String) (content : List UInt8) (conditions : Conditions) :
    (∃ error, replaceFile files path content conditions = (.error error, files)) ∨
      ∃ target temporary created after, replacedPath files path conditions.troubles = .ok target ∧
        files.createTemporary (replacedDirectory target) conditions.temporary = .ok (temporary, created) ∧
        (created.put temporary (.file (conditions.troubles.takenMode
          (created.put temporary (.file Node.fileMode content)) target) content)).rename temporary target = .ok after ∧
        replaceFile files path content conditions = (.ok target, after) := by
  -- Each step in turn comes to what it does without trouble, or ends the attempt.
  rw [replaceFile]
  cases leads : replacedPath files path conditions.troubles with
  | error fault => exact .inl ⟨_, rfl⟩
  | ok target =>
    simp only
    rcases amid_cases conditions.troubles.create
      (files.createTemporary (replacedDirectory target) conditions.temporary) with creates | ⟨fault, failed⟩
    · rw [creates]
      cases made : files.createTemporary (replacedDirectory target) conditions.temporary with
      | error fault => exact .inl ⟨_, rfl⟩
      | ok temporary =>
        obtain ⟨temporary, created⟩ := temporary
        -- Whatever fails from here on takes the temporary file away.
        have gone := FileSystem.erase_temporary made
        simp only [gone]
        cases conditions.troubles.fill with
        | some trouble => exact .inl ⟨_, rfl⟩
        | none =>
          cases conditions.troubles.sync with
          | some fault => exact .inl ⟨_, rfl⟩
          | none =>
            rcases takePermissions_cases conditions.troubles created temporary target content with
              ⟨fault, failed⟩ | permits
            · simp only [failed]
              exact .inl ⟨_, rfl⟩
            · simp only [permits]
              rcases amid_cases conditions.troubles.move ((created.put temporary (.file (conditions.troubles.takenMode
                (created.put temporary (.file Node.fileMode content)) target) content)).rename temporary target) with
                moves | ⟨fault, failed⟩
              · rw [moves]
                cases moved : (created.put temporary (.file (conditions.troubles.takenMode
                    (created.put temporary (.file Node.fileMode content)) target) content)).rename temporary target with
                | error fault => exact .inl ⟨_, by rw [gone]⟩
                | ok after => exact .inr ⟨target, temporary, created, after, rfl, made, moved, rfl⟩
              · rw [failed]
                exact .inl ⟨_, by rw [gone]⟩
    · rw [failed]
      exact .inl ⟨_, rfl⟩

/-- Replacing a file puts the new bytes by the name in which the replaced path ends, over what is no directory, and
changes nothing else. -/
theorem replaceFile_spec (done : replaceFile files path content conditions = (.ok target, after)) :
    replacedPath files path conditions.troubles = .ok target ∧ FileSystem.pathFault? target = none ∧
      ∃ directory name, files.Entry target directory name ∧ files.hasDirectory (directory ++ [name]) = false ∧
        after = files.put (directory ++ [name]) (.file (conditions.troubles.takenMode files target) content) := by
  rcases replaceFile_cases files path content conditions with
    ⟨error, failed⟩ | ⟨aim, temporary, created, moved, replaced, creates, renamed, own⟩
  · rw [failed] at done
    cases done
  · rw [own] at done
    cases done
    obtain ⟨inside, rfl, isDirectory, absent, rfl⟩ := FileSystem.createTemporary_spec creates
    rw [FileSystem.put_put, FileSystem.put_put] at renamed
    have same := fun node => FileSystem.sameBut_put isDirectory conditions.temporary.text node
    obtain ⟨sound, directory, name, node, entry, plain, found, rfl⟩ := FileSystem.rename_spec renamed
    rw [FileSystem.node?_put_self] at found
    obtain rfl := Option.some.inj found
    -- The temporary file is not on the way, though it may be at the end.
    have blind := FileSystem.blind_of_file (FileSystem.node?_put_self files (inside ++ [conditions.temporary.text])
      (.file (conditions.troubles.takenMode (files.put (inside ++ [conditions.temporary.text])
        (.file Node.fileMode content)) target) content))
    have before := (same _).symm.entry blind entry
    refine ⟨replaced, sound, directory, name, before, ?_, ?_⟩
    · by_cases own : directory ++ [name] = inside ++ [conditions.temporary.text]
      · rw [own]
        exact FileSystem.hasDirectory_of_absent absent
      · rw [← (same _).hasDirectory own]
        exact plain
    · -- The temporary file is gone again.
      have mode : conditions.troubles.takenMode (files.put (inside ++ [conditions.temporary.text])
          (.file Node.fileMode content)) target = conditions.troubles.takenMode files target := by
        rw [Troubles.takenMode, Troubles.takenMode, (same _).takenMode absent (FileSystem.node?_put_self ..)]
      rw [FileSystem.erase_put (FileSystem.isSome_of_hasDirectory isDirectory), FileSystem.erase_of_absent absent, mode]

/-- A file that cannot be replaced stays as it is, and so does everything else. -/
theorem replaceFile_failed {error : ConfigError} (failed : replaceFile files path content conditions = (.error error, after)) :
    after = files := by
  rcases replaceFile_cases files path content conditions with ⟨_, own⟩ | ⟨_, _, _, _, -, -, -, own⟩
  · rw [own] at failed
    cases failed
    rfl
  · rw [own] at failed
    cases failed

end Replaced

end ConfigStore
