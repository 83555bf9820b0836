import ConfigStore.Proofs.Files.Permissions
import ConfigStore.Proofs.Keyfile.RoundTrip

/-! Keyfiles are loaded from files and written to files. A write replaces one file or nothing, and what was written is
loaded again. -/

namespace ConfigStore

/-- A keyfile that is opened is carried by the format, and its path is one at which files can be read. -/
theorem openKeyfile_spec {files : FileSystem} {path : String} {store : Keyfile}
    (opened : (openKeyfile files path).1 = .ok store) : files.Readable path ∧ store.Carried := by
  rw [openKeyfile] at opened
  cases found : files.contents path with
  | ok content =>
    simp only [found, Keyfile.loadBuffered_ofBytes] at opened
    have loaded : (Keyfile.loadBytes defaultLineLimit content).1 = store := Except.ok.inj opened
    refine ⟨fun fault failed => ?_, loaded ▸ loadBytes_carried defaultLineLimit content⟩
    rw [found] at failed
    cases failed
  | error fault =>
    -- Only what is missing can be opened as an empty keyfile.
    cases fault with
    | notFound =>
      simp only [found, Except.ok.injEq] at opened
      refine ⟨fun fault failed => ?_, opened ▸ ⟨fun part member => absurd member List.not_mem_nil, .nil⟩⟩
      rw [found] at failed
      exact (Except.error.inj failed).symm
    | _ => simp [found] at opened

/-- The keyfile in a file is what its bytes are loaded as. -/
theorem openKeyfile_of_contents {files : FileSystem} {path : String} {content : List UInt8}
    (found : files.contents path = .ok content) :
    (openKeyfile files path).1 = .ok (Keyfile.loadBytes defaultLineLimit content).1 := by
  simp only [openKeyfile, found, Keyfile.loadBuffered_ofBytes]
  rfl

/-- A write is a file replaced, or nothing. -/
theorem writeKeyfile_cases (files : FileSystem) (store : Keyfile) (path : String) (conditions : Conditions) :
    (∃ error, writeKeyfile files store path conditions = (.error error, files, [.keyfileUnwritten path error])) ∨
      ∃ target after, replaceFile files path (Utf8.encode store.render) conditions = (.ok target, after) ∧
        writeKeyfile files store path conditions = (.ok (), after, [.keyfileWritten target]) := by
  rw [writeKeyfile]
  cases done : replaceFile files path (Utf8.encode store.render) conditions with
  | mk result after =>
    cases result with
    | ok target => exact .inr ⟨target, after, rfl, rfl⟩
    | error error => exact .inl ⟨error, by rw [replaceFile_failed done]⟩

/-- A keyfile that is written replaces the file. -/
theorem writeKeyfile_spec {files : FileSystem} {store : Keyfile} {path : String} {conditions : Conditions}
    (written : (writeKeyfile files store path conditions).1 = .ok ()) :
    ∃ target, replaceFile files path (Utf8.encode store.render) conditions =
      (.ok target, (writeKeyfile files store path conditions).2.1) := by
  rcases writeKeyfile_cases files store path conditions with ⟨error, failed⟩ | ⟨target, after, done, own⟩
  · rw [failed] at written
    cases written
  · rw [own]
    exact ⟨target, done⟩

/-- Whatever is met, a write that fails leaves the files as they were. One that succeeds puts a file with the keyfile's
text at a single place, where no directory was, and leaves every other place as it was. If the path does not start in a
directory that was taken away, then the file has the permissions of the file that the path led to, if they can be looked
up, or else those of a new file. If it is short enough to be opened as well, then the text is what is loaded from there. -/
theorem writeKeyfile_all_or_nothing {files : FileSystem} (anchored : files.Anchored) (store : Keyfile) (path : String)
    (conditions : Conditions) :
    (∀ error after events, writeKeyfile files store path conditions = (.error error, after, events) → after = files) ∧
    ∀ after events, writeKeyfile files store path conditions = (.ok (), after, events) →
      ∃ directory name mode, files.hasDirectory directory = true ∧ files.hasDirectory (directory ++ [name]) = false ∧
        after = files.put (directory ++ [name]) (.file mode (Utf8.encode store.render)) ∧
        after.node? (directory ++ [name]) = some (.file mode (Utf8.encode store.render)) ∧
        (∀ place, place ≠ directory ++ [name] → after.node? place = files.node? place) ∧
        (Path.isAbsolute path = true ∨ files.lost = none →
          (∃ result, files.Ends true ⟨mostLinks, files.start path, Path.pieces path⟩ result ∧
            mode = if conditions.troubles.unseen then Node.fileMode else files.permissionsOf result) ∧
          (path.utf8ByteSize < pathBound →
            (openKeyfile after path).1 = .ok (Keyfile.loadBytes defaultLineLimit (Utf8.encode store.render)).1)) := by
  rcases writeKeyfile_cases files store path conditions with ⟨fault, failed⟩ | ⟨target, made, done, written⟩
  · rw [failed]
    refine ⟨?_, ?_⟩
    · rintro error after events ⟨⟩
      rfl
    · rintro after events ⟨⟩
  · rw [written]
    refine ⟨?_, ?_⟩
    · rintro error after events ⟨⟩
    · rintro after events ⟨⟩
      -- All that happened is that something was put by one name in a directory.
      obtain ⟨replaced, sound, directory, name, entry, plain, rfl⟩ := replaceFile_spec done
      refine ⟨directory, name, _, entry.inside, plain, rfl, FileSystem.node?_put_self .., ?_, ?_⟩
      · intro place apart
        exact FileSystem.node?_put_other (FileSystem.isSome_of_hasDirectory entry.inside) apart
      · intro reachable
        obtain ⟨result, ends, fileward⟩ :=
          FileSystem.fileward_of_replacedPath anchored reachable replaced sound entry plain
        refine ⟨⟨result, ends, ?_⟩, fun short => ?_⟩
        · rw [Troubles.takenMode, takenMode_eq anchored reachable replaced sound entry plain ends]
        -- The walk that came by the name comes by it again, and the new file is there.
        have own := FileSystem.pathFault?_of_replacedPath replaced sound short
        obtain ⟨inside, last, aims, found⟩ := replaceFile_aims anchored ends fileward done
        exact openKeyfile_of_contents (aims.contents own found)

/-- A root directory with a file in it. -/
def rootWithFile : FileSystem :=
  FileSystem.put {} ["config"] (.file 0o600 (Utf8.encode "[a]\nx=1\n"))

/-- The directory of the file is the root, which is there. -/
theorem anchored_rootWithFile : rootWithFile.Anchored :=
  @FileSystem.Anchored.put {} [] "config" FileSystem.anchored_empty rfl rfl _

/-- A file is replaced and loaded again, or it stays because no more than three bytes can be written. -/
theorem writeKeyfile_config :
    rootWithFile.Anchored ∧
    (∃ after events, writeKeyfile rootWithFile ⟨[⟨"a", [⟨"k", "new"⟩]⟩]⟩ "config" {} = (.ok (), after, events) ∧
      (openKeyfile after "config").1 = .ok ⟨[⟨"a", [⟨"k", "new"⟩]⟩]⟩) ∧
    ∃ error events, writeKeyfile rootWithFile ⟨[⟨"a", [⟨"k", "new"⟩]⟩]⟩ "config"
      { troubles := { fill := some (3, .stream "disk full") } } = (.error error, rootWithFile, events) := by
  refine ⟨anchored_rootWithFile, ?_, ?_⟩
  · have works : (writeKeyfile rootWithFile ⟨[⟨"a", [⟨"k", "new"⟩]⟩]⟩ "config" {}).1 = .ok () := by decide +kernel
    rcases made : writeKeyfile rootWithFile ⟨[⟨"a", [⟨"k", "new"⟩]⟩]⟩ "config" {} with ⟨result, after, events⟩
    rw [made] at works
    obtain rfl := works
    obtain ⟨_, _, _, -, -, -, -, -, opens⟩ := (writeKeyfile_all_or_nothing anchored_rootWithFile _ "config" {}).2 _ _ made
    refine ⟨after, events, rfl, ?_⟩
    rw [(opens (.inr rfl)).2 (by decide)]
    decide +kernel
  · have fails : (writeKeyfile rootWithFile ⟨[⟨"a", [⟨"k", "new"⟩]⟩]⟩ "config"
        { troubles := { fill := some (3, .stream "disk full") } }).1 =
          .error (.file "/.tmp000000" (.stream "disk full")) := by decide +kernel
    rcases made : writeKeyfile rootWithFile ⟨[⟨"a", [⟨"k", "new"⟩]⟩]⟩ "config"
      { troubles := { fill := some (3, .stream "disk full") } } with ⟨result, after, events⟩
    rw [made] at fails
    obtain rfl := fails
    obtain rfl := (writeKeyfile_all_or_nothing anchored_rootWithFile _ _ _).1 _ _ _ made
    exact ⟨_, events, rfl⟩

/-- A path that names a file behind so many points. -/
def pointed (points : Nat) : String :=
  String.join (List.replicate points "./") ++ "config"

/-- The pieces of such a path are points but for the last one. -/
theorem pieces_pointed (points : Nat) : Path.pieces (pointed points) = List.replicate points "." ++ ["config"] := by
  induction points with
  | zero => decide
  | succ fewer ih =>
    have first : pointed (fewer + 1) = "." ++ "/" ++ pointed fewer := by
      rw [pointed, pointed, List.replicate_succ, String.join_cons, String.append_assoc]
      rfl
    rw [first, Path.pieces_append, ih, List.replicate_succ]
    rfl

/-- Each point takes two bytes. -/
theorem utf8ByteSize_pointed (points : Nat) : (pointed points).utf8ByteSize = 2 * points + 6 := by
  have each : (String.join (List.replicate points "./")).utf8ByteSize = 2 * points := by
    induction points with
    | zero => rfl
    | succ fewer ih =>
      rw [List.replicate_succ, String.join_cons, String.utf8ByteSize_append, ih]
      have two : "./".utf8ByteSize = 2 := by decide
      omega
  have name : "config".utf8ByteSize = 6 := by decide
  rw [pointed, String.utf8ByteSize_append, each, name]

/-- Such a path has no character that paths cannot have, and is not empty. -/
theorem pointed_clean (points : Nat) : (pointed points).toList.all (· != '\x00') = true ∧ pointed points ≠ "" := by
  constructor
  · rw [pointed, String.toList_append, String.toList_join, List.all_append, List.all_flatMap]
    simp
  · intro empty
    have size := utf8ByteSize_pointed points
    rw [empty] at size
    cases size

/-- Such a path has no fault but its length. -/
theorem pathFault?_pointed (points : Nat) :
    FileSystem.pathFault? (pointed points) = if pathBound ≤ 2 * points + 6 then some .nameTooLong else none := by
  obtain ⟨clean, filled⟩ := pointed_clean points
  rw [FileSystem.pathFault?, if_pos clean, if_neg filled, utf8ByteSize_pointed]

/-- However many points there are, the path without links is that of the file. -/
theorem canonical_pointed (points : Nat) : rootWithFile.canonical (pointed points) = .ok "/config" := by
  -- The first piece of the path is not empty.
  have relative : Path.isAbsolute (pointed points) = false := by
    rw [← Bool.not_eq_true]
    intro absolute
    obtain ⟨rest, -, spelled⟩ := Path.isAbsolute_iff.1 absolute
    rw [pieces_pointed] at spelled
    cases points with
    | zero => simp at spelled
    | succ fewer => simp [List.replicate_succ] at spelled
  have begins : rootWithFile.start? (pointed points) = some [] := by
    rw [FileSystem.start?, relative]
    rfl
  -- The points are passed over one by one.
  have straight : rootWithFile.canonicalPlace mostLinks [] (List.replicate points "." ++ ["config"]) = .ok ["config"] := by
    clear relative begins
    induction points with
    | zero => decide +kernel
    | succ fewer ih =>
      show rootWithFile.canonicalPieces _ _ ("." :: _) = _
      rw [FileSystem.canonicalPieces, if_pos (by decide)]
      exact ih
  obtain ⟨clean, filled⟩ := pointed_clean points
  rw [FileSystem.canonical, if_pos clean, if_neg filled, begins, pieces_pointed]
  simp only [straight]
  rfl

/-- A path that is too long cannot be opened, whatever it names. -/
theorem openKeyfile_pointed {points : Nat} (long : pathBound ≤ 2 * points + 6) (files : FileSystem) :
    (openKeyfile files (pointed points)).1 = .error (.file (pointed points) .nameTooLong) := by
  have fault := pathFault?_pointed points
  rw [if_pos long] at fault
  have stuck : files.contents (pointed points) = .error .nameTooLong := by
    simp [FileSystem.contents, FileSystem.stat, FileSystem.resolve, FileSystem.resolvePieces, fault]
  simp only [openKeyfile, stuck]

/-- A root directory with links to a directory beside the place where relative paths started. -/
def rootWithLinks : FileSystem :=
  { root := ((Tree.directory.put (.directory 0o755) ["w", "sub"]).put (.link "/w/m") ["w", "l"]).put (.link "/w/sub")
      ["w", "m"]
    workDir := ["w", "d"]
    lost := some 0o755 }

/-- What a path leads to may be replaced although the path is too long to be opened. When a path starts in a directory that
was taken away, a file that comes to be in place of a link may get the permissions of the directory behind that, and be
in the way of the path itself. Where the permissions of the old file cannot be looked up, the file is replaced without
them. -/
theorem writeKeyfile_unopened :
    ((writeKeyfile rootWithFile ⟨[⟨"a", [⟨"k", "new"⟩]⟩]⟩ (pointed 2500) {}).1 = .ok () ∧
      (openKeyfile (writeKeyfile rootWithFile ⟨[⟨"a", [⟨"k", "new"⟩]⟩]⟩ (pointed 2500) {}).2.1 (pointed 2500)).1 =
        .error (.file (pointed 2500) .nameTooLong)) ∧
    ((writeKeyfile rootWithLinks ⟨[⟨"a", [⟨"k", "new"⟩]⟩]⟩ "../m/../l" {}).1 = .ok () ∧
      (writeKeyfile rootWithLinks ⟨[⟨"a", [⟨"k", "new"⟩]⟩]⟩ "../m/../l" {}).2.1.node? ["w", "m"] =
        some (.file 0o755 (Utf8.encode "[a]\nk=new\n")) ∧
      rootWithLinks.permissionsOf (rootWithLinks.resolve true "../m/../l") = 0o644 ∧
      (openKeyfile (writeKeyfile rootWithLinks ⟨[⟨"a", [⟨"k", "new"⟩]⟩]⟩ "../m/../l" {}).2.1 "../m/../l").1 =
        .error (.file "../m/../l" .notDirectory)) ∧
    ((writeKeyfile rootWithFile ⟨[⟨"a", [⟨"k", "new"⟩]⟩]⟩ "config" { troubles := { unseen := true } }).1 = .ok () ∧
      rootWithFile.permissionsOf (rootWithFile.resolve true "config") = 0o600 ∧
      (writeKeyfile rootWithFile ⟨[⟨"a", [⟨"k", "new"⟩]⟩]⟩ "config" { troubles := { unseen := true } }).2.1.node? ["config"] =
        some (.file 0o644 (Utf8.encode "[a]\nk=new\n"))) := by
  -- The points are too many to be computed with, but they only matter for the path without links.
  have same : replaceFile rootWithFile (pointed 2500) (Utf8.encode (Keyfile.render ⟨[⟨"a", [⟨"k", "new"⟩]⟩]⟩)) {} =
      replaceFile rootWithFile "/config" (Utf8.encode (Keyfile.render ⟨[⟨"a", [⟨"k", "new"⟩]⟩]⟩)) {} := by
    have direct : rootWithFile.canonical "/config" = .ok "/config" := by decide +kernel
    rw [replaceFile, replacedPath, canonical_pointed, replaceFile, replacedPath, direct]
    rfl
  have long : pathBound ≤ 2 * 2500 + 6 := by decide
  refine ⟨⟨?_, openKeyfile_pointed long _⟩, ?_⟩
  · rw [writeKeyfile, same]
    decide +kernel
  · decide +kernel

end ConfigStore
