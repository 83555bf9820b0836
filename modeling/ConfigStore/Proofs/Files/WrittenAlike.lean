import ConfigStore.Proofs.Files.Lockstep
import ConfigStore.Proofs.Files.Replaceable

/-! Where two systems of files look the same all along a path, a file is replaced through it in both or in none, and in the
same way. -/

namespace ConfigStore.FileSystem

variable {files other : FileSystem} {path target name : String} {directory : Location} {links fewer budget : Nat}
  {here there : Option Location} {front left : List String}

/-- A walk that runs out of links does so with more pieces behind. -/
theorem Ends.append_tooMany (ends : files.Ends true ⟨links, here, front⟩ (.error .tooManyLinks)) (back : List String) :
    files.Ends true ⟨links, here, front ++ back⟩ (.error .tooManyLinks) := by
  obtain ⟨last, run, halts⟩ := ends
  cases halts with
  | spent inside names short found followed => exact ⟨_, run.append (.inr rfl), .spent inside names short found (.inr rfl)⟩

/-- A run is one in both if they look the same to a walk with fewer links and more pieces that has enough of the links. -/
theorem Alike.runs_afford {back : List String} (alike : Alike files other ⟨budget, here, front ++ back⟩)
    (enough : ¬files.Ends true ⟨budget, here, front ++ back⟩ (.error .tooManyLinks))
    (run : files.Runs true ⟨links, here, front⟩ ⟨fewer, there, left⟩) :
    other.Runs true ⟨links, here, front⟩ ⟨fewer, there, left⟩ := by
  -- The run is followed step by step with the links that the other walk has.
  generalize start : Walk.mk links here front = walk at run
  induction run using Relation.ReflTransGen.head_induction_on generalizing links here front budget with
  | refl => exact .refl
  | @head walk next moves _ ih =>
    subst start
    obtain ⟨more, place, pieces⟩ := next
    rcases moves.afford budget with ⟨rest, -, again⟩ | tooMany
    · have step : files.Moves true ⟨budget, here, front ++ back⟩ ⟨rest, place, pieces ++ back⟩ := again.append (.inr rfl)
      have agrees : Agrees files other ⟨links, here, front⟩ := by
        refine ⟨alike.lost, alike.workDir, fun place sees => alike.front.seen place ⟨⟨budget, here, front⟩, .refl, ?_⟩⟩
        -- How many links are left makes no difference to what is seen.
        cases sees with
        | here => exact .here
        | below inside names => exact .below inside names
      exact .head (agrees.moves moves)
        (ih (alike.later (.single step)) (fun tooMany => enough (.later step tooMany)) rfl)
    · exact absurd (tooMany.append_tooMany back) enough

namespace Alike

/-- A path that ends in a name does so in both. -/
theorem entry (alike : Alike files other (files.walkOf path)) (entry : files.Entry path directory name) :
    other.Entry path directory name := by
  obtain ⟨links, comes⟩ := entry.runs
  obtain ⟨names, short, inside, front, links, whole, run⟩ := entry
  have inside' := (alike.agrees comes).hasDirectory.trans inside
  refine ⟨names, short, inside', front, links, whole, ?_⟩
  rw [alike.start]
  rw [FileSystem.walkOf, whole] at alike
  exact alike.front.runs run

/-- The same link is read. -/
theorem readLink? (alike : Alike files other (files.walkOf path)) : other.readLink? path = files.readLink? path := by
  rw [FileSystem.readLink?, FileSystem.readLink?, alike.resolve]
  cases leads : files.resolve false path with
  | error fault => rfl
  | ok place =>
    cases place with
    | missing directory name => rfl
    | lost mode => rfl
    | found place =>
      have seen := alike.seen_of_resolve leads
      simp only
      cases found : files.node? place with
      | none => rw [absent_of_seen seen found]
      | some node =>
        cases node with
        | file mode content => rw [node?_of_seen seen rfl found]
        | link target => rw [node?_of_seen seen rfl found]
        | directory mode =>
          obtain ⟨again, found'⟩ := hasDirectory_iff.1 ((hasDirectory_of_seen seen).trans (hasDirectory_of_node found))
          rw [found']

/-- The same bytes are read. -/
theorem contents (alike : Alike files other (files.walkOf path)) : other.contents path = files.contents path := by
  rw [FileSystem.contents, FileSystem.contents, FileSystem.stat, FileSystem.stat, alike.resolve]
  cases leads : files.resolve true path with
  | error fault => rfl
  | ok place =>
    cases place with
    | missing directory name => rfl
    | lost mode => rfl
    | found place =>
      have seen := alike.seen_of_resolve leads
      simp only
      cases found : files.node? place with
      | none => rw [absent_of_seen seen found]
      | some node =>
        cases node with
        | file mode content => rw [node?_of_seen seen rfl found]
        | link target => rw [node?_of_seen seen rfl found]
        | directory mode =>
          obtain ⟨again, found'⟩ := hasDirectory_iff.1 ((hasDirectory_of_seen seen).trans (hasDirectory_of_node found))
          rw [found']

/-- The path leads to the same file, if it leads to one. -/
theorem stat_file_iff (alike : Alike files other (files.walkOf path)) (mode : Nat) (content : List UInt8) :
    other.stat path = .ok (.file mode content) ↔ files.stat path = .ok (.file mode content) := by
  rw [stat_eq_ok_iff, stat_eq_ok_iff, alike.resolve]
  refine or_congr (by simp) (exists_congr fun place => and_congr_right fun leads => ?_)
  rw [← seen?_eq_some_iff rfl, ← seen?_eq_some_iff rfl, alike.seen_of_resolve leads]

/-- The same path is replaced. -/
theorem replacedPath (alike : Alike files other (files.walkOf path)) (anchored : files.Anchored)
    (otherAnchored : other.Anchored) (troubles : Troubles) :
    ConfigStore.replacedPath other path troubles = ConfigStore.replacedPath files path troubles := by
  rw [ConfigStore.replacedPath, ConfigStore.replacedPath, alike.canonical anchored otherAnchored, alike.readLink?]

/-- The paths of temporary files are the same. -/
theorem temporaryPath {walk : Walk} (alike : Alike files other walk) (directory : String) (drawn : TemporaryName) :
    other.temporaryPath directory drawn = files.temporaryPath directory drawn := by
  rw [FileSystem.temporaryPath, FileSystem.temporaryPath, absolute?, absolute?, alike.lost, alike.workDir]

end Alike

/-- The names of a place are not too long if a path of theirs leads there. -/
theorem Entry.short_placePath (entry : files.Entry (placePath (directory ++ [name])) directory name)
    (grounded : files.Grounded (directory ++ [name]))
    (own : ∀ piece ∈ directory ++ [name], Path.Names piece ∧ '/' ∉ piece.toList) :
    ∀ piece ∈ directory, piece.utf8ByteSize ≤ mostNameBytes := by
  have proper : ∀ piece ∈ directory, Path.Names piece := fun piece member => (own piece (List.mem_append_left _ member)).1
  have pieces : Path.pieces (placePath (directory ++ [name])) = "" :: directory ++ [name] :=
    pieces_placePath (by simp) fun piece member => (own piece member).2
  obtain ⟨front, links, whole, run⟩ := entry.run
  obtain rfl := List.append_cancel_right (whole.symm.trans pieces)
  have starts : files.start (placePath (directory ++ [name])) = some [] := by rw [start, if_pos (isAbsolute_placePath _)]
  rw [starts] at run
  have named : Path.namesOf ("" :: directory) = directory := by
    rw [Path.namesOf_cons_void (by decide), Path.namesOf_of_names proper]
  have ends : files.Ends true ⟨mostLinks, some [], "" :: directory⟩ (.ok (.found directory)) :=
    ⟨_, run, .found (isSome_of_hasDirectory entry.inside)⟩
  have level : ".." ∉ "" :: directory := by
    intro member
    rcases List.mem_cons.1 member with same | inner
    · exact absurd same (by decide)
    · exact (proper _ inner).down rfl
  -- All places on the way are directories, so that the way is one without links.
  have unlinked : files.Unlinked [] (Path.namesOf ("" :: directory)) := by
    rw [named]
    rintro front ⟨back, rfl⟩ target
    exact not_link_of_hasDirectory (grounded front (back ++ [name]) (List.append_assoc ..) (by simp))
  obtain ⟨isOpen, -⟩ := open_of_ends ends entry.inside level unlinked
  rw [named] at isOpen
  exact isOpen.short

/-- The path of a place leads there by its last name, if the others are those of directories. -/
theorem Entry.placePath (grounded : files.Grounded (directory ++ [name]))
    (own : ∀ piece ∈ directory ++ [name], Path.Names piece ∧ '/' ∉ piece.toList)
    (short : ∀ piece ∈ directory ++ [name], piece.utf8ByteSize ≤ mostNameBytes) :
    files.Entry (ConfigStore.placePath (directory ++ [name])) directory name := by
  have proper : ∀ piece ∈ directory, Path.Names piece := fun piece member => (own piece (List.mem_append_left _ member)).1
  have pieces : Path.pieces (ConfigStore.placePath (directory ++ [name])) = "" :: directory ++ [name] :=
    pieces_placePath (by simp) fun piece member => (own piece member).2
  have named : Path.namesOf directory = directory := Path.namesOf_of_names proper
  have isOpen : files.Open [] (Path.namesOf directory) := by
    rw [named]
    refine ⟨fun piece member => short piece (List.mem_append_left _ member), ?_⟩
    rintro front ⟨back, rfl⟩
    exact grounded front (back ++ [name]) (List.append_assoc ..) (by simp)
  have down : files.Runs true ⟨mostLinks, some [], directory ++ []⟩ ⟨mostLinks, some ([] ++ Path.namesOf directory), []⟩ :=
    isOpen.runs fun member => (proper _ member).down rfl
  rw [List.append_nil, named, List.nil_append] at down
  have starts : files.start (ConfigStore.placePath (directory ++ [name])) = some [] := by
    rw [start, if_pos (isAbsolute_placePath _)]
  refine ⟨(own name (by simp)).1, short name (by simp), ?_, "" :: directory, mostLinks, pieces, ?_⟩
  · exact grounded directory [name] rfl (by simp)
  · rw [starts]
    exact .head (.void isOpen.base_inside (by decide)) down

/-- The place of a path without links is by a name below directories, and so it is where the path leads. -/
theorem grounded_of_canonical {place : Location} (anchored : files.Anchored) (resolved : files.canonical path = .ok target)
    (ends : files.Ends true (files.walkOf path) (.ok (.found place))) :
    target = placePath place ∧ files.Grounded place ∧ ∀ piece ∈ place, Path.Names piece ∧ '/' ∉ piece.toList := by
  obtain ⟨start, other, starts, grounded, proper, rfl, walked⟩ := canonical_ends anchored resolved
  rw [walkOf, starts] at ends
  obtain ⟨rfl⟩ : other = place := by simpa using walked.unique ends
  obtain ⟨final, run, halts⟩ := walked
  cases halts with
  | link _ _ _ _ kept => cases kept
  | found there =>
    have first : files.Spelled ⟨mostLinks, some start, Path.pieces path⟩ :=
      ⟨⟨start, rfl, grounded, proper⟩, fun piece member => Path.not_mem_of_mem_pieces member⟩
    obtain ⟨place, same, below, own⟩ := (first.runs run).grounded
    cases same
    exact ⟨rfl, below, own⟩

/-- Where a link is followed, its target leads to the same name in both. -/
theorem Alike.entry_beside {base : Location} {last aim : String} {result : Except FileFault Place}
    (alike : Alike files other (files.walkOf path)) (link : files.Entry path base last)
    (found : files.node? (base ++ [last]) = some (.link aim))
    (ends : files.Ends true (files.walkOf path) result) (fileward : files.Fileward result)
    (entry : files.Entry (Path.beside path aim) directory name) (inside : other.hasDirectory directory = true) :
    other.Entry (Path.beside path aim) directory name := by
  obtain ⟨budget, first⟩ := link.runs
  -- Behind the link, the walk along the path has some links left, which are enough.
  have enough : ¬files.Ends true ⟨budget, some base, [last]⟩ (.error .tooManyLinks) := fun tooMany =>
    fileward.links ((ends.of_runs first).unique tooMany)
  obtain ⟨fewer, follows⟩ : ∃ fewer, files.Moves true ⟨budget, some base, [last]⟩
      ⟨fewer, some (linkBase base aim), Path.pieces aim⟩ := by
    rcases link_ends link.inside link.names link.short found budget with ⟨less, rfl, follows⟩ | tooMany
    · exact ⟨less, follows⟩
    · exact absurd tooMany enough
  have behind := alike.later (first.tail follows)
  have left : ¬files.Ends true ⟨fewer, some (linkBase base aim), Path.pieces aim⟩ (.error .tooManyLinks) := fun tooMany =>
    enough (.later follows tooMany)
  obtain ⟨names, short, -, front, links, shown, run⟩ := entry
  refine ⟨names, short, inside, front, links, shown, ?_⟩
  obtain ⟨ahead, upper, whole, through⟩ := link.run
  obtain ⟨parent, solid, voids, rfl, above⟩ := Path.exists_above whole link.names
  rw [Path.beside, above.found] at shown run ⊢
  simp only at shown run ⊢
  by_cases absolute : Path.isAbsolute aim = true
  · -- The target stands on its own.
    rw [Path.join, if_pos absolute] at shown run ⊢
    rw [linkBase, if_pos absolute, shown] at behind left
    rw [FileSystem.start, if_pos absolute] at run ⊢
    exact behind.runs_afford left run
  · have relative : Path.isAbsolute aim = false := by simpa using absolute
    have starts := fun files : FileSystem => @start_congr files _ _ ((Path.isAbsolute_join relative).trans above.absolute)
    rw [starts] at run ⊢
    rw [above.join aim relative] at shown
    -- The pieces of the directory come first, as they do on the way to the link.
    obtain ⟨inner, rfl, spelled⟩ : ∃ inner, front = solid ++ inner ∧ Path.pieces aim = inner ++ [name] := by
      obtain ⟨inner, final, ended⟩ := List.eq_nil_or_concat (Path.pieces aim) |>.resolve_left (Path.pieces_ne_nil aim)
      rw [List.concat_eq_append] at ended
      rw [ended, ← List.append_assoc] at shown
      obtain ⟨same, rfl⟩ := List.append_singleton_inj.1 shown
      exact ⟨inner, same.symm, ended⟩
    obtain ⟨most, place, before, after⟩ := run.split (Nat.zero_le _)
    obtain ⟨_, _, upto, rest⟩ := through.split (Nat.zero_le _)
    obtain ⟨rfl, rfl⟩ := before.unique upto
    obtain rfl := rest.voids above.void
    rw [linkBase, if_neg absolute, spelled] at behind left
    rw [FileSystem.walkOf, whole, List.append_assoc] at alike
    have again := alike.front.runs before
    rw [alike.start]
    exact (again.append (.inr rfl)).trans (behind.runs_afford left after)

/-- What is replaced ends in the same name of the same directory in both. -/
theorem Replaceable.entry_congr {result : Except FileFault Place} (takes : files.Replaceable path target directory name)
    (alike : Alike files other (files.walkOf path)) (anchored : files.Anchored) (otherAnchored : other.Anchored)
    (ends : files.Ends true (files.walkOf path) result) (fileward : files.Fileward result) :
    other.Entry target directory name := by
  rcases replacedPath_cases takes.replaced with resolved | ⟨-, ⟨-, rfl⟩ | ⟨-, aim, link, rfl⟩⟩
  · -- The place of the path without links is below directories in both.
    obtain ⟨-, leads, -⟩ := runs_of_canonical anchored resolved takes.entry takes.plain
    obtain ⟨rfl, grounded, own⟩ := grounded_of_canonical anchored resolved leads
    have again := alike.ends leads
    rw [← alike.walkOf] at again
    obtain ⟨-, grounded', -⟩ :=
      grounded_of_canonical otherAnchored ((alike.canonical anchored otherAnchored).trans resolved) again
    refine .placePath grounded' own fun piece member => ?_
    rcases List.mem_append.1 member with before | last
    · exact takes.entry.short_placePath grounded own piece before
    · rw [List.mem_singleton.1 last]
      exact takes.entry.short
  · exact alike.entry takes.entry
  · obtain ⟨links, run⟩ := runs_of_replacedPath anchored ends fileward takes.replaced takes.entry takes.plain
    obtain ⟨base, last, there, found⟩ := entry_of_readLink link ends fileward
    exact alike.entry_beside there found ends fileward takes.entry ((alike.agrees run).hasDirectory.trans takes.entry.inside)

/-- Where a path leads to a file or to nothing, it gives the same permissions in both. -/
theorem Alike.permissionsOf {result : Except FileFault Place} (alike : Alike files other (files.walkOf path))
    (ends : files.Ends true (files.walkOf path) result) (fileward : files.Fileward result) :
    other.permissionsOf result = files.permissionsOf result := by
  cases result with
  | error fault => rfl
  | ok place =>
    cases place with
    | missing directory name => rfl
    | lost mode => rfl
    | found place =>
      -- What is at the end is a file.
      obtain ⟨mode, content, found⟩ := fileward.file place rfl
      have found' := node?_of_seen (alike.seen place ends.comesBy) rfl found
      simp only [FileSystem.permissionsOf, found, found']

/-- All that it takes to replace a file is there in both, and the file gets the same permissions. -/
theorem Replaceable.congr (takes : files.Replaceable path target directory name)
    (alike : Alike files other (files.walkOf path)) (anchored : files.Anchored) (otherAnchored : other.Anchored)
    (reachable : Path.isAbsolute path = true ∨ files.lost = none) :
    other.Replaceable path target directory name ∧ takenMode other target = takenMode files target := by
  obtain ⟨result, ends, fileward⟩ :=
    fileward_of_replacedPath anchored reachable takes.replaced takes.sound takes.entry takes.plain
  obtain ⟨links, run⟩ := runs_of_replacedPath anchored ends fileward takes.replaced takes.entry takes.plain
  have seen := (alike.agrees run).seen _ (.below takes.entry.inside takes.entry.names)
  have plain := (hasDirectory_of_seen seen).trans takes.plain
  have replaced := (alike.replacedPath anchored otherAnchored {}).trans takes.replaced
  have entry := takes.entry_congr alike anchored otherAnchored ends fileward
  refine ⟨⟨replaced, takes.sound, entry, plain, ?_, fun drawn => ?_⟩, ?_⟩
  · rw [alike.lost, alike.workDir]
    exact takes.reachable
  · rw [alike.temporaryPath]
    exact takes.temporary drawn
  · have ends' := alike.ends ends
    rw [← alike.walkOf] at ends'
    rw [takenMode_eq otherAnchored (alike.lost ▸ reachable) replaced takes.sound entry plain ends',
      takenMode_eq anchored reachable takes.replaced takes.sound takes.entry takes.plain ends]
    exact alike.permissionsOf ends fileward

end ConfigStore.FileSystem
