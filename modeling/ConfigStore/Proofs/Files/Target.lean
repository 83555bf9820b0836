import ConfigStore.Proofs.Files.Canonical
import ConfigStore.Proofs.Files.Replace

/-! The path that is replaced may be another one than the path that names it, without links or behind a link, but both
lead to the same place. -/

namespace ConfigStore

/-- The path that a link of a path leads to: its target, from the directory above. -/
def Path.beside (path target : String) : String :=
  match Path.parent? path with
  | some parent => Path.join parent target
  | none => target

namespace FileSystem

variable {files : FileSystem} {path last : String} {above : List String}

/-- A path at which a file can be read, or nothing is there yet. -/
def Readable (files : FileSystem) (path : String) : Prop :=
  ∀ fault, files.contents path = .error fault → fault = .notFound

/-- What a walk may come to if a file can be written and read there: not too many links, and nothing but a file. -/
structure Fileward (files : FileSystem) (result : Except FileFault Place) : Prop where
  /-- The links on the way are not too many. -/
  links : result ≠ .error .tooManyLinks
  /-- What is at the end is a file. -/
  file : ∀ place, result = .ok (.found place) → ∃ mode content, files.node? place = some (.file mode content)

namespace Fileward

variable {result : Except FileFault Place}

/-- No directory is at the end. -/
theorem plain (fileward : files.Fileward result) {place : Location} (found : result = .ok (.found place)) :
    files.hasDirectory place = false := by
  obtain ⟨mode, content, node⟩ := fileward.file place found
  rw [hasDirectory_of_node node]
  rfl

/-- Where something is missing, a file can be written. -/
theorem of_lacking (lacking : Lacking result) : files.Fileward result := by
  rcases lacking with rfl | ⟨directory, name, rfl⟩
  · exact ⟨by simp, fun place found => (by cases found)⟩
  · exact ⟨by simp, fun place found => (by cases found)⟩

/-- A walk comes to the last name in a directory the same way when something else is by that name. -/
theorem runs_elsewhere {other : FileSystem} {walk : Walk} {links : Nat} {directory : Location} {name : String}
    (fileward : files.Fileward result) (ends : files.Ends true walk result)
    (run : files.Runs true walk ⟨links, some directory, [name]⟩) (names : Path.Names name)
    (plain : files.hasDirectory (directory ++ [name]) = false) (lost : other.lost = files.lost)
    (workDir : other.workDir = files.workDir)
    (same : ∀ place, files.ComesBy walk place → place ≠ directory ++ [name] → other.seen? place = files.seen? place) :
    other.Runs true walk ⟨links, some directory, [name]⟩ := by
  refine run.congr fun middle next before moves behind =>
    ⟨lost, workDir, fun place sees => same place ⟨middle, before, sees⟩ ?_⟩
  rintro rfl
  generalize here : directory ++ [name] = place at sees
  cases sees with
  | here =>
    -- The walk moves from directories only, and none is by the name.
    rw [here, moves.inside.1] at plain
    cases plain
  | below _ _ =>
    obtain ⟨rfl, rfl⟩ := List.append_singleton_inj.1 here
    -- A walk that came by the name before would never end, or end at a directory.
    rcases Runs.returns names plain moves behind (ends.of_runs run) with tooMany | ⟨place, found, directory⟩
    · exact fileward.links tooMany
    · rw [fileward.plain found] at directory
      cases directory

end Fileward

/-- A path that ends in a name is not empty. -/
theorem ne_empty_of_names (whole : Path.pieces path = above ++ [last]) (names : Path.Names last) : path ≠ "" := by
  -- The empty path has an empty last piece.
  rintro rfl
  have lone : [] ++ [""] = above ++ [last] := whole
  exact absurd (List.append_singleton_inj.1 lone).2.symm names.ne_empty

/-- A path that is readable and not empty has no fault of its own, and its walk comes to a file if it comes to
anything. -/
theorem Readable.ends (readable : files.Readable path) (filled : path ≠ "") :
    pathFault? path = none ∧
      ∃ result, files.Ends true ⟨mostLinks, files.start path, Path.pieces path⟩ result ∧ files.Fileward result := by
  have sound : pathFault? path = none := by
    cases fault : pathFault? path with
    | none => rfl
    | some reason =>
      have stuck : files.contents path = .error reason := by
        simp [contents, stat, resolve, resolvePieces, fault]
      have missing := readable reason stuck
      subst missing
      -- Only the empty path is missing by itself.
      rw [pathFault?] at fault
      split at fault
      · split at fault <;> cases fault
      · cases fault
  have ends : files.Ends true ⟨mostLinks, files.start path, Path.pieces path⟩ (files.resolve true path) :=
    resolvePieces_ends sound _
  refine ⟨sound, files.resolve true path, ends, ?_, ?_⟩
  · intro tooMany
    have stuck : files.contents path = .error .tooManyLinks := by simp [contents, stat, tooMany]
    cases readable _ stuck
  · intro place found
    rw [found] at ends
    obtain ⟨_, -, halts⟩ := ends
    have there : (files.node? place).isSome := by
      cases halts with
      | found there => exact there
      | link _ _ _ _ kept => cases kept
    obtain ⟨node, there⟩ := Option.isSome_iff_exists.1 there
    have stuck : ∀ fault, files.contents path = .error fault → fault = .notFound := readable
    simp only [contents, stat, found, there] at stuck
    -- Anything but a file would be taken for a directory.
    cases node with
    | file mode content => exact ⟨mode, content, there⟩
    | directory mode => cases stuck _ rfl
    | link target => cases stuck _ rfl

section Replaced

variable {target name : String} {directory base : Location}

/-- The path of a place ends in a name in a directory when the place is that name in the directory, if all directories
on the way are there. -/
theorem Entry.of_placePath {place : Location} (grounded : files.Grounded place)
    (own : ∀ name ∈ place, Path.Names name ∧ '/' ∉ name.toList)
    (entry : files.Entry (placePath place) directory name) : place = directory ++ [name] := by
  obtain ⟨front, links, spelled, run⟩ := entry.run
  -- The root itself has no name.
  have inner : place ≠ [] := by
    intro root
    subst root
    have slash : Path.pieces (placePath []) = [""] ++ [""] := by decide
    exact entry.names.ne_empty (List.append_singleton_inj.1 (slash.symm.trans spelled)).2.symm
  have pieces := pieces_placePath inner fun name member => (own name member).2
  have absolute : Path.isAbsolute (placePath place) = true := Path.isAbsolute_iff.2 ⟨place, inner, pieces⟩
  obtain ⟨above, rfl, rfl⟩ := Path.exists_inner (spelled.symm.trans pieces) entry.names.ne_empty
  -- Without links, the way is straight.
  rw [FileSystem.start, if_pos absolute] at run
  have whole : files.Runs true ⟨mostLinks, some [], [""] ++ above⟩ ⟨links, some directory, []⟩ := run
  obtain ⟨fewer, there, slash, rest⟩ := whole.split (Nat.zero_le _)
  obtain rfl := slash.voids fun piece member => by
    rw [List.mem_singleton.1 member]
    decide
  have straight : directory = [] ++ above := by
    refine rest.straight (fun name member => (own name (List.mem_append_left _ member)).1) fun front back split => ?_
    refine grounded front (back ++ [name]) ?_ (by simp)
    rw [split, List.append_assoc]
  rw [straight, List.nil_append]

/-- The path without links leads to a file by the file's name, and so does the path that has links. -/
theorem runs_of_canonical (anchored : files.Anchored) (resolved : files.canonical path = .ok target)
    (entry : files.Entry target directory name) (plain : files.hasDirectory (directory ++ [name]) = false) :
    (∃ links, files.Runs true ⟨mostLinks, files.start path, Path.pieces path⟩ ⟨links, some directory, [name]⟩) ∧
      files.Ends true ⟨mostLinks, files.start path, Path.pieces path⟩ (.ok (.found (directory ++ [name]))) ∧
      ∃ mode content, files.node? (directory ++ [name]) = some (.file mode content) := by
  obtain ⟨start, place, starts, grounded, proper, rfl, final, walked, halts⟩ := canonical_ends anchored resolved
  cases halts with
  | link _ _ _ _ kept => cases kept
  | found there =>
    have first : files.Spelled ⟨mostLinks, some start, Path.pieces path⟩ :=
      ⟨⟨start, rfl, grounded, proper⟩, fun piece member => Path.not_mem_of_mem_pieces member⟩
    obtain ⟨other, same, below, own⟩ := (first.runs walked).grounded
    cases same
    obtain rfl := entry.of_placePath below own
    -- The walk comes to the place by its name.
    obtain ⟨before, last, split, named, solid⟩ := walked.by_name first (Path.pieces_ne_nil path) plain
    obtain ⟨rfl, rfl⟩ := List.append_singleton_inj.1 split
    refine ⟨⟨_, starts ▸ named⟩, ⟨_, starts ▸ walked, .found there⟩, ?_⟩
    -- Neither a directory nor a link is there, so it is a file.
    obtain ⟨node, found⟩ := Option.isSome_iff_exists.1 there
    cases node with
    | file mode content => exact ⟨mode, content, found⟩
    | directory mode =>
      rw [hasDirectory_of_node found] at plain
      cases plain
    | link aim => exact absurd found (solid aim)

/-- A link that is read is by the name in which its path ends, if the path does not lead to a link. -/
theorem entry_of_readLink {aim : String} {result : Except FileFault Place} (link : files.readLink? path = some aim)
    (ends : files.Ends true ⟨mostLinks, files.start path, Path.pieces path⟩ result) (fileward : files.Fileward result) :
    ∃ base last, files.Entry path base last ∧ files.node? (base ++ [last]) = some (.link aim) := by
  rw [readLink?] at link
  split at link
  · next place leads =>
    have kept : files.Ends false ⟨mostLinks, files.start path, Path.pieces path⟩ (files.resolve false path) :=
      resolvePieces_ends (pathFault?_of_resolve leads) _
    rw [leads] at kept
    obtain ⟨final, run, halts⟩ := kept
    split at link
    · next target found =>
      obtain rfl := Option.some.inj link
      cases halts with
      | found there =>
        -- Otherwise the walk would stand at the link when its pieces are passed.
        have again : files.Ends true ⟨mostLinks, files.start path, Path.pieces path⟩ (.ok (.found place)) :=
          ⟨_, Relation.ReflTransGen.mono (fun _ _ moves => moves.follow) _ _ run, .found there⟩
        obtain ⟨mode, content, node⟩ := fileward.file place (ends.unique again)
        rw [found] at node
        cases node
      | link _ names _ _ _ =>
        -- The last piece is left until the walk halts by it.
        have last := run.getLast? (List.cons_ne_nil _ _)
        obtain ⟨front, whole⟩ := List.getLast?_eq_some_iff.1 last.symm
        obtain ⟨base, same, entry⟩ := entry_of_found whole names leads
        exact ⟨base, _, entry, same ▸ found⟩
    · cases link
  · cases link

/-- The target of a link leads to where the link does, be it put behind the directory of the link or not. -/
theorem runs_of_target {aim : String} (link : files.Entry path base last)
    (entry : files.Entry (Path.beside path aim) directory name) :
    ∃ budget rest, files.Runs true ⟨budget, some (linkBase base aim), Path.pieces aim⟩
      ⟨rest, some directory, [name]⟩ := by
  obtain ⟨front, fewer, whole, run⟩ := link.run
  obtain ⟨parent, solid, voids, split, upper⟩ := Path.exists_above whole link.names
  obtain ⟨links, through⟩ := entry.runs
  rw [Path.beside, upper.found] at through
  simp only at through
  by_cases absolute : Path.isAbsolute aim = true
  · -- The target stands on its own.
    rw [Path.join, if_pos absolute, start, if_pos absolute] at through
    exact ⟨_, _, by rw [linkBase, if_pos absolute]; exact through⟩
  · have relative : Path.isAbsolute aim = false := by simpa using absolute
    rw [start_congr ((Path.isAbsolute_join relative).trans upper.absolute), upper.join aim relative] at through
    -- The pieces of the directory come first, as they do on the way to the link.
    have filled : [name].length ≤ (Path.pieces aim).length := List.length_pos_iff.2 (Path.pieces_ne_nil aim)
    obtain ⟨budget, there, first, second⟩ := through.split filled
    rw [split] at run
    obtain ⟨other, again, upto, rest⟩ := run.split (Nat.zero_le _)
    obtain ⟨rfl, rfl⟩ := first.unique upto
    obtain rfl := rest.voids upper.void
    exact ⟨_, _, by rw [linkBase, if_neg absolute]; exact second⟩

/-- A path to a link leads to where the target of the link does, unless it passes too many links. -/
theorem runs_of_link {aim : String} {result : Except FileFault Place} (link : files.Entry path base last)
    (found : files.node? (base ++ [last]) = some (.link aim))
    (ends : files.Ends true ⟨mostLinks, files.start path, Path.pieces path⟩ result) (fileward : files.Fileward result)
    (entry : files.Entry (Path.beside path aim) directory name) :
    ∃ links, files.Runs true ⟨mostLinks, files.start path, Path.pieces path⟩ ⟨links, some directory, [name]⟩ := by
  obtain ⟨fewer, first⟩ := link.runs
  obtain ⟨budget, rest, behind⟩ := runs_of_target link entry
  -- Otherwise there would be too many links.
  have enough : ¬files.Ends true ⟨fewer, some base, [last]⟩ (.error .tooManyLinks) := fun tooMany =>
    fileward.links ((ends.of_runs first).unique tooMany)
  rcases link_ends link.inside link.names link.short found fewer with ⟨less, rfl, follows⟩ | tooMany
  · rcases behind.afford less with ⟨left, _, again⟩ | tooMany
    · exact ⟨left, first.trans (.head follows again)⟩
    · exact absurd (Ends.later follows tooMany) enough
  · exact absurd tooMany enough

/-- The path that is replaced is the one without links, or that beside a link for which there is none, or the path
itself. -/
theorem replacedPath_cases {troubles : Troubles} (replaced : replacedPath files path troubles = .ok target) :
    files.canonical path = .ok target ∨
    files.canonical path = .error .notFound ∧
      ((troubles.unread = true ∨ files.readLink? path = none) ∧ target = path ∨
        troubles.unread = false ∧ ∃ aim, files.readLink? path = some aim ∧ target = Path.beside path aim) := by
  rw [replacedPath] at replaced
  split at replaced
  · next aim resolved =>
    rcases amid_cases (troubles.locate.filter (· != .notFound)) (files.canonical path) with same | ⟨fault, failed⟩
    · exact .inl (by rw [← same, resolved, Except.ok.inj replaced])
    · rw [failed] at resolved
      cases resolved
  · next missing =>
    -- That something is missing is never a trouble.
    have same : files.canonical path = .error .notFound := by
      cases trouble : troubles.locate.filter (· != .notFound) with
      | none => rwa [trouble] at missing
      | some fault =>
        rw [trouble] at missing
        cases missing
        have other := (Option.filter_eq_some_iff.1 trouble).2
        exact absurd other (by decide)
    refine .inr ⟨same, ?_⟩
    cases unread : troubles.unread with
    | true =>
      rw [unread, if_pos rfl, Except.ok.injEq] at replaced
      exact .inl ⟨.inl rfl, replaced.symm⟩
    | false =>
      rw [unread, if_neg (by decide)] at replaced
      cases link : files.readLink? path with
      | none =>
        rw [link, Except.ok.injEq] at replaced
        exact .inl ⟨.inr rfl, replaced.symm⟩
      | some aim =>
        rw [link] at replaced
        refine .inr ⟨rfl, aim, rfl, ?_⟩
        rw [Path.beside]
        cases upper : Path.parent? path with
        | some parent =>
          simp only [upper, Except.ok.injEq] at replaced
          exact replaced.symm
        | none =>
          simp only [upper, Except.ok.injEq] at replaced
          exact replaced.symm
  · cases replaced

/-- Wherever the replaced path leads, the path that names it leads there too, if a file can be written and read
there. -/
theorem runs_of_replacedPath (anchored : files.Anchored) {result : Except FileFault Place}
    (ends : files.Ends true ⟨mostLinks, files.start path, Path.pieces path⟩ result) (fileward : files.Fileward result)
    {troubles : Troubles} (replaced : replacedPath files path troubles = .ok target)
    (entry : files.Entry target directory name) (plain : files.hasDirectory (directory ++ [name]) = false) :
    ∃ links, files.Runs true ⟨mostLinks, files.start path, Path.pieces path⟩ ⟨links, some directory, [name]⟩ := by
  rcases replacedPath_cases replaced with resolved | ⟨-, ⟨-, rfl⟩ | ⟨-, aim, link, rfl⟩⟩
  · exact (runs_of_canonical anchored resolved entry plain).1
  · -- The path itself is replaced.
    exact entry.runs
  · obtain ⟨base, last, there, found⟩ := entry_of_readLink link ends fileward
    exact runs_of_link there found ends fileward entry

end Replaced

end FileSystem

end ConfigStore
