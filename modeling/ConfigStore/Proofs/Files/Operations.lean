import ConfigStore.Proofs.Files.Directories
import ConfigStore.Proofs.Files.Replace

/-! Whatever is done with files, their system keeps what it promises. -/

namespace ConfigStore

namespace FileSystem

variable {files after : FileSystem} {path : String} {directory place : Location} {name : String}

/-- Every other place is as it was when something is put in place of what is there. -/
theorem node?_put_of_there {other : Location} (there : (files.node? place).isSome) (apart : other ≠ place)
    (new : Node) : (files.put place new).node? other = files.node? other := by
  -- The directory above is there, unless the place is the root.
  rcases List.eq_nil_or_concat place with rfl | ⟨front, last, rfl⟩
  · -- What is below the root stays below it.
    cases other with
    | nil => exact absurd rfl apart
    | cons first rest => rfl
  · rw [List.concat_eq_append] at there apart ⊢
    exact node?_put_other (node?_front there) apart

/-- A name that is missing for a path may be created in the directory where it is missing. -/
theorem resolve_missing {followLast : Bool} (leads : files.resolve followLast path = .ok (.missing directory name)) :
    files.hasDirectory directory = true ∧ files.node? (directory ++ [name]) = none := by
  -- A walk along the path ends by that name.
  have ends : files.Ends followLast ⟨mostLinks, files.start path, Path.pieces path⟩ (files.resolve followLast path) :=
    resolvePieces_ends (pathFault?_of_resolve leads) _
  rw [leads] at ends
  exact ends.missing

namespace Anchored

/-- What was missing may be created. -/
theorem put_missing (anchored : files.Anchored) {followLast : Bool}
    (leads : files.resolve followLast path = .ok (.missing directory name)) (node : Node) :
    (files.put (directory ++ [name]) node).Anchored := by
  obtain ⟨inside, absent⟩ := resolve_missing leads
  exact anchored.put (isSome_of_hasDirectory inside) (hasDirectory_of_absent absent) node

/-- What is there may be replaced by something of its kind. -/
theorem put_there (anchored : files.Anchored) {old new : Node} (found : files.node? place = some old)
    (kind : new.isDirectory = old.isDirectory) : (files.put place new).Anchored := by
  -- Places other than this one are left alone, and this one keeps its kind.
  refine anchored.mono (by rfl) (by rfl) fun other inside => ?_
  by_cases same : other = place
  · subst same
    rw [hasDirectory, found] at inside
    rw [hasDirectory, node?_put_self, Option.any_some, kind]
    exact inside
  · rw [hasDirectory, node?_put_of_there (by rw [found]; rfl) same]
    exact inside

/-- A directory in which relative paths start may be taken away, since that is remembered. -/
theorem takeAway (anchored : files.Anchored) (inner : place ≠ []) : (files.takeAway place).Anchored := by
  have root : (files.erase place).hasDirectory [] = true := by
    rw [hasDirectory, node?_erase_other (fun top => inner (List.prefix_nil.1 top))]
    exact anchored.root
  rw [FileSystem.takeAway]
  split
  · exact ⟨root, fun present => (by cases present), fun present => (by cases present)⟩
  · next other =>
    refine ⟨root, fun present front back split => ?_, anchored.names⟩
    have start := anchored.directories present files.workDir [] (List.append_nil _).symm
    -- The place is not on the way to where relative paths start.
    have beside : ¬place <+: front := by
      intro above
      obtain ⟨mode, there⟩ := hasDirectory_iff.1 start
      have way : files.workDir = front ++ back := split
      have whole : place.isPrefixOf files.workDir = true := by
        rw [List.isPrefixOf_iff_prefix, way]
        exact above.trans (List.prefix_append _ _)
      exact other _ whole present there
    rw [hasDirectory, node?_erase_other beside]
    exact anchored.directories present front back split

end Anchored

end FileSystem

/-- What is done with files, and the files then. -/
inductive FileSystem.Changes : FileSystem → FileSystem → Prop
  /-- A directory is created, with what is missing above it. -/
  | ensureDirectories (files : FileSystem) (path : String) : Changes files (files.ensureDirectories path).2
  /-- A file is replaced, or nothing is done for want of a way. -/
  | replaceFile (files : FileSystem) (path : String) (content : List UInt8) (conditions : Conditions) :
    Changes files (ConfigStore.replaceFile files path content conditions).2
  /-- A file is written. -/
  | writeFile {files after : FileSystem} {path : String} {content : List UInt8}
    (done : files.writeFile path content = .ok after) : Changes files after
  /-- A link is created. -/
  | makeLink {files after : FileSystem} {path target : String} (done : files.makeLink path target = .ok after) :
    Changes files after
  /-- Permissions are changed. -/
  | changeMode {files after : FileSystem} {path : String} {mode : Nat}
    (done : files.changeMode path mode = .ok after) : Changes files after
  /-- Something is taken away. -/
  | removeAll {files after : FileSystem} {path : String} (done : files.removeAll path = .ok after) :
    Changes files after

namespace FileSystem.Anchored

variable {files after : FileSystem} {path : String}

/-- Replacing a file keeps what a system of files promises, and so does failing to. -/
theorem replaceFile (anchored : files.Anchored) (path : String) (content : List UInt8) (conditions : Conditions) :
    (ConfigStore.replaceFile files path content conditions).2.Anchored := by
  -- Either the target is replaced by a file, or nothing is changed.
  cases done : ConfigStore.replaceFile files path content conditions with
  | mk result after =>
    cases result with
    | ok target =>
      obtain ⟨-, -, directory, name, entry, plain, rfl⟩ := replaceFile_spec done
      exact anchored.put (isSome_of_hasDirectory entry.inside) plain _
    | error error => exact replaceFile_failed done ▸ anchored

/-- A file is written where nothing is, or over one. -/
theorem writeFile (anchored : files.Anchored) {content : List UInt8}
    (done : files.writeFile path content = .ok after) : after.Anchored := by
  -- A directory is never written over.
  rw [FileSystem.writeFile] at done
  split at done
  · cases done
  · next directory name leads =>
    split at done
    · cases done
    · cases done
      exact anchored.put_missing leads _
  · cases done
  · split at done
    · next mode old found =>
      cases done
      exact anchored.put_there found rfl
    · cases done

/-- A link is created where nothing is. -/
theorem makeLink (anchored : files.Anchored) {target : String} (done : files.makeLink path target = .ok after) :
    after.Anchored := by
  -- Unless nothing is there, no link is created.
  rw [FileSystem.makeLink] at done
  split at done
  · cases done
  · cases done
  · cases done
  · cases done
  · next leads =>
    cases done
    exact anchored.put_missing leads _

/-- With other permissions, things are of the kind that they were. -/
theorem changeMode (anchored : files.Anchored) {mode : Nat} (done : files.changeMode path mode = .ok after) :
    after.Anchored := by
  -- The kind of a thing does not depend on its permissions.
  rw [FileSystem.changeMode] at done
  split at done
  · cases done
  · cases done
  · -- The directory that was taken away is still remembered.
    cases done
    exact ⟨anchored.root, fun present => (by cases present), fun present => (by cases present)⟩
  · split at done
    · next node found =>
      cases done
      refine anchored.put_there found ?_
      cases node with
      | directory mode => rfl
      | file mode content => rfl
      | link target => rfl
    · cases done

/-- All but the root may be taken away. -/
theorem removeAll (anchored : files.Anchored) (done : files.removeAll path = .ok after) : after.Anchored := by
  -- Whatever is refused is not taken away.
  rw [FileSystem.removeAll] at done
  split at done
  · cases done
  · cases done
  · cases done
  · cases done
  · next place inner _ =>
    cases done
    exact anchored.takeAway fun top => inner (by rw [top])

/-- Everything that is done with files keeps what their system promises. -/
theorem changes (anchored : files.Anchored) (change : files.Changes after) : after.Anchored := by
  cases change with
  | ensureDirectories path => exact anchored.ensureShape _
  | replaceFile path content conditions => exact anchored.replaceFile path content conditions
  | writeFile done => exact anchored.writeFile done
  | makeLink done => exact anchored.makeLink done
  | changeMode done => exact anchored.changeMode done
  | removeAll done => exact anchored.removeAll done

/-- Whatever was done with files since there was nothing but a root, their system keeps what it promises. -/
theorem of_changes {files : FileSystem} (changed : Relation.ReflTransGen Changes {} files) : files.Anchored := by
  -- The promises hold at first, and every change keeps them.
  induction changed with
  | refl => exact anchored_empty
  | tail _ change ih => exact ih.changes change

end FileSystem.Anchored

end ConfigStore
