import ConfigStore.Files.Canonical
import ConfigStore.Proofs.Files.Grounded

/-! The path without links to what a path leads to leads where the path does. If there is none because something is
missing, the path ends where something is missing. -/

namespace ConfigStore.FileSystem

variable {files : FileSystem} {here : Trail}

/-- What is looked up is there, in a directory, or is missing there. -/
theorem lookUp_spec (leads : here.Leads files.root) (name : String) :
    match files.lookUp here name with
    | .ok child => files.hasDirectory here.location = true ∧ name.utf8ByteSize ≤ mostNameBytes ∧
      (here.tree files.root).below.tree? name = some child
    | .error .notFound => files.hasDirectory here.location = true ∧ name.utf8ByteSize ≤ mostNameBytes ∧
      (here.tree files.root).below.tree? name = none
    | .error _ => True := by
  -- The look-up fails otherwise unless each of its checks is passed.
  rw [lookUp]
  by_cases far : pathBound ≤ here.pathBytes name
  · rw [if_pos far]
    trivial
  · rw [if_neg far]
    by_cases inside : (here.tree files.root).node.isDirectory = true
    · rw [if_neg (by simp [inside])]
      by_cases long : mostNameBytes < name.utf8ByteSize
      · rw [if_pos long]
        trivial
      · rw [if_neg long, hasDirectory_of_node (node?_location leads)]
        cases below : (here.tree files.root).below.tree? name with
        | none => exact ⟨inside, Nat.not_lt.1 long, rfl⟩
        | some child => exact ⟨inside, Nat.not_lt.1 long, rfl⟩
    · rw [if_pos (by simpa using inside)]
      trivial

/-- What a walk comes to when something is missing. -/
def Lacking (result : Except FileFault Place) : Prop :=
  result = .error .notFound ∨ ∃ directory name, result = .ok (.missing directory name)

/-- What an answer about a walk says: the place to which it leads, or that something is missing there. Other faults may
be those of the look-ups, and say nothing. -/
def Answers (files : FileSystem) (walk : Walk) : Except FileFault Location → Prop
  | .ok place => files.Ends true walk (.ok (.found place))
  | .error .notFound => ∃ result, Lacking result ∧ files.Ends true walk result
  | .error _ => True

/-- An answer about where a walk goes on is one about the walk. -/
theorem Answers.later {walk next : Walk} {result : Except FileFault Location} (moves : files.Moves true walk next)
    (answers : files.Answers next result) : files.Answers walk result := by
  cases result with
  | ok place => exact Ends.later moves answers
  | error fault =>
    cases fault with
    | notFound =>
      obtain ⟨end_, lacking, ends⟩ := answers
      exact ⟨end_, lacking, Ends.later moves ends⟩
    | _ => trivial

variable {follow : Trail → List String → Except FileFault Location}

/-- Behind what is no directory, nothing is reached or missing, if it was not taken for one. -/
theorem canonicalPieces_of_file (leads : here.Leads files.root) (plain : files.hasDirectory here.location = false)
    {pieces : List String} (left : pieces ≠ []) (unneeded : needDirectory pieces = false) (walk : Walk) :
    files.Answers walk (files.canonicalPieces follow here pieces) := by
  induction pieces with
  | nil => exact absurd rfl left
  | cons piece rest ih =>
    rw [canonicalPieces]
    by_cases void : Path.isVoid piece = true
    · rw [if_pos void]
      rw [needDirectory, List.dropWhile_cons_of_pos void] at unneeded
      -- A name is left behind the void pieces.
      have more : rest ≠ [] := by
        intro ended
        subst ended
        cases unneeded
      refine ih more ?_
      rw [needDirectory]
      split at unneeded
      · cases unneeded
      · exact unneeded
    · rw [if_neg void]
      rw [needDirectory, List.dropWhile_cons_of_neg void] at unneeded
      rw [if_neg (by simpa using unneeded)]
      have look := lookUp_spec leads piece
      cases found : files.lookUp here piece with
      | error fault =>
        rw [found] at look
        cases fault with
        | notFound =>
          rw [look.1] at plain
          cases plain
        | _ => trivial
      | ok child =>
        rw [found] at look
        rw [look.1] at plain
        cases plain

/-- Handing over at a link without links answers for a walk with one link fewer. -/
def HandsOn (files : FileSystem) : Nat → (Trail → List String → Except FileFault Location) → Prop
  | 0, follow => follow = fun _ _ => .error .tooManyLinks
  | fewer + 1, follow => ∀ here : Trail, here.Leads files.root → files.Grounded here.location →
      files.hasDirectory here.location = true → ∀ pieces,
        files.Answers ⟨fewer, some here.location, pieces⟩ (follow here pieces)

/-- Handing over at a link without links answers for the walk. -/
theorem HandsOn.answers {links : Nat} {piece target : String} {rest : List String} (follows : files.HandsOn links follow)
    (leads : here.Leads files.root) (grounded : files.Grounded here.location)
    (directory : files.hasDirectory here.location = true) (names : Path.Names piece)
    (short : piece.utf8ByteSize ≤ mostNameBytes)
    (found : files.node? (here.location ++ [piece]) = some (.link target)) :
    files.Answers ⟨links, some here.location, piece :: rest⟩
      (follow (if Path.isAbsolute target then [] else here) (Path.pieces target ++ rest)) := by
  cases links with
  | zero =>
    -- Without links left, nothing is handed over.
    rw [follows]
    trivial
  | succ fewer =>
    refine Answers.later (.link directory names short found (.inr rfl)) ?_
    by_cases absolute : Path.isAbsolute target = true
    · rw [if_pos absolute, if_pos absolute]
      exact follows [] .root (.root files) (grounded.directory_root directory) _
    · rw [if_neg absolute, if_neg absolute]
      exact follows here leads grounded directory _

/-- A name that is missing is where the walk ends. -/
theorem Answers.of_absent {links : Nat} {place : Location} {piece : String}
    (directory : files.hasDirectory place = true) (names : Path.Names piece) (short : piece.utf8ByteSize ≤ mostNameBytes)
    (absent : files.node? (place ++ [piece]) = none) (rest : List String) :
    files.Answers ⟨links, some place, piece :: rest⟩ (.error .notFound) := by
  -- What is behind the name decides whether it may be created.
  by_cases closed : rest.all String.isEmpty = true
  · exact ⟨_, .inr ⟨place, piece, rfl⟩, Ends.now (.missing directory names short absent closed)⟩
  · exact ⟨_, .inl rfl, Ends.now (.absent directory names short absent (by simpa using closed))⟩

/-- Following a name without links answers for the walk, if handing over at a link does, and following the pieces behind
what is there, which is a directory if they need one. -/
theorem canonicalPieces_name_answers {links : Nat} {piece : String} {rest : List String}
    (follows : files.HandsOn links follow) (leads : here.Leads files.root) (grounded : files.Grounded here.location)
    (directory : files.hasDirectory here.location = true) (names : Path.Names piece)
    (behind : ∀ child, (here.tree files.root).below.tree? piece = some child →
      files.hasDirectory (here.location ++ [piece]) = true ∨ needDirectory rest = false →
      files.Answers ⟨links, some (here.location ++ [piece]), rest⟩
        (files.canonicalPieces follow ((piece, child) :: here) rest)) :
    files.Answers ⟨links, some here.location, piece :: rest⟩ (files.canonicalPieces follow here (piece :: rest)) := by
  rw [canonicalPieces, if_neg names.not_isVoid, if_neg names.down]
  have look := lookUp_spec leads piece
  have there := node?_location_append leads piece
  cases found : files.lookUp here piece with
  | error fault =>
    rw [found] at look
    cases fault with
    | notFound =>
      rw [look.2.2, Option.map_none] at there
      exact .of_absent directory names look.2.1 there rest
    | _ => trivial
  | ok child =>
    rw [found] at look
    obtain ⟨-, short, below⟩ := look
    rw [below, Option.map_some] at there
    -- What is no link is walked into, and is a directory if that is needed.
    have inner : ∀ node, child.node = node → (∀ target, node ≠ .link target) →
        files.Answers ⟨links, some here.location, piece :: rest⟩
          (if needDirectory rest && !node.isDirectory then .error .notDirectory
            else files.canonicalPieces follow ((piece, child) :: here) rest) := by
      intro node kind solid
      subst kind
      split
      · trivial
      · next fits =>
        have settled : files.hasDirectory (here.location ++ [piece]) = true ∨ needDirectory rest = false := by
          rw [hasDirectory_of_node there]
          by_cases kind : child.node.isDirectory = true
          · exact .inl kind
          · exact .inr (by simpa [kind] using fits)
        exact Answers.later (.down directory names short there solid) (behind child below settled)
    cases kind : child.node with
    | directory mode =>
      simp only [kind]
      exact inner _ kind (by simp)
    | file mode content =>
      simp only [kind]
      exact inner _ kind (by simp)
    | link target =>
      rw [kind] at there
      simp only [kind]
      exact follows.answers leads grounded directory names short there

/-- Following pieces without links answers for the walk, if handing over at a link does. -/
theorem canonicalPieces_answers {links : Nat} (follows : files.HandsOn links follow) {pieces : List String}
    (leads : here.Leads files.root) (grounded : files.Grounded here.location)
    (settled : files.hasDirectory here.location = true ∨ needDirectory pieces = false) :
    files.Answers ⟨links, some here.location, pieces⟩ (files.canonicalPieces follow here pieces) := by
  induction pieces generalizing here with
  | nil => exact Ends.found (by rw [node?_location leads]; rfl)
  | cons piece rest ih =>
    by_cases directory : files.hasDirectory here.location = true
    · by_cases void : Path.isVoid piece = true
      · rw [canonicalPieces, if_pos void]
        exact Answers.later (.void directory void) (ih leads grounded (.inl directory))
      · by_cases up : piece = ".."
        · subst up
          rw [canonicalPieces, if_neg void, if_pos rfl]
          have above := grounded.up
          have parent := grounded.directory_up directory
          rw [← Trail.location_tail] at above parent
          have answers := ih leads.tail above (.inl parent)
          rw [Trail.location_tail] at answers
          exact Answers.later (.up directory) answers
        · refine canonicalPieces_name_answers follows leads grounded directory (.of_not_isVoid void up) ?_
          intro child found settled
          have deeper := grounded.down directory piece
          rw [← Trail.location_cons piece child] at deeper settled
          have answers := ih (leads.step found) deeper settled
          rw [Trail.location_cons] at answers
          exact answers
    · -- With pieces left, nothing is said from anything else.
      exact canonicalPieces_of_file leads (by simpa using directory) (List.cons_ne_nil _ _)
        (settled.resolve_left directory) _

/-- Following pieces through so many links without links left answers for a walk with as many. -/
theorem canonicalPlace_answers (links : Nat) (pieces : List String) (leads : here.Leads files.root)
    (grounded : files.Grounded here.location) (directory : files.hasDirectory here.location = true) :
    files.Answers ⟨links, some here.location, pieces⟩ (files.canonicalPlace links here pieces) := by
  -- As with links, the walk behind a link has one link fewer.
  induction links generalizing here pieces with
  | zero =>
    have follows : files.HandsOn 0 fun _ _ => .error .tooManyLinks := rfl
    exact canonicalPieces_answers follows leads grounded (.inl directory)
  | succ fewer ih =>
    have follows : files.HandsOn (fewer + 1) (files.canonicalPlace fewer) := fun _ leads grounded directory pieces =>
      ih pieces leads grounded directory
    exact canonicalPieces_answers follows leads grounded (.inl directory)

/-- The way to where a path starts is there, below directories, by proper names to a directory. -/
theorem start?_spec (anchored : files.Anchored) {path : String} {trail : Trail}
    (starts : files.start? path = some trail) :
    trail.Leads files.root ∧ files.start path = some trail.location ∧ files.Grounded trail.location ∧
      files.hasDirectory trail.location = true ∧
      ∀ name ∈ trail.location, Path.Names name ∧ '/' ∉ name.toList := by
  rw [start?] at starts
  by_cases absolute : Path.isAbsolute path = true
  · rw [if_pos absolute] at starts
    obtain rfl := Option.some.inj starts
    exact ⟨.root, by rw [start, if_pos absolute]; rfl, .root files, anchored.root,
      fun name member => absurd member List.not_mem_nil⟩
  · rw [if_neg absolute] at starts
    -- Otherwise it starts where relative paths do, if that is still there.
    cases kept : files.lost with
    | some mode => simp [kept] at starts
    | none =>
      simp only [kept, Option.isSome_none, Bool.false_eq_true, if_false] at starts
      obtain ⟨leads, whole⟩ := Tree.leads_of_extend? starts
      rw [whole]
      exact ⟨leads, by rw [start, if_neg absolute, kept], fun front back split _ =>
        anchored.directories kept front back split, anchored.directories kept files.workDir [] (List.append_nil _).symm,
        anchored.names kept⟩

/-- A path starts in the tree, unless it does so in a directory that has been taken away. -/
theorem exists_start? (anchored : files.Anchored) {path : String}
    (reachable : Path.isAbsolute path = true ∨ files.lost = none) : ∃ trail, files.start? path = some trail := by
  rw [start?]
  split
  · exact ⟨[], rfl⟩
  · next relative =>
    have kept := reachable.resolve_left relative
    rw [kept, Option.isSome_none, if_neg (by decide)]
    -- The directory in which relative paths start is there.
    cases way : files.root.extend? [] files.workDir with
    | some trail => exact ⟨trail, rfl⟩
    | none =>
      have there := isSome_of_hasDirectory (anchored.directories kept files.workDir [] (List.append_nil _).symm)
      rw [node?, Tree.at?_of_extend?_none way] at there
      cases there

/-- The absolute path without links is that of the place to which a walk leads. -/
theorem canonical_ends (anchored : files.Anchored) {path resolved : String}
    (done : files.canonical path = .ok resolved) :
    ∃ start place, files.start path = some start ∧ files.Grounded start ∧
      (∀ name ∈ start, Path.Names name ∧ '/' ∉ name.toList) ∧ resolved = placePath place ∧
      files.Ends true ⟨mostLinks, some start, Path.pieces path⟩ (.ok (.found place)) := by
  -- Any step that failed would have been the end.
  rw [canonical] at done
  split at done
  · split at done
    · cases done
    · cases starts : files.start? path with
      | none => simp [starts] at done
      | some trail =>
        simp only [starts] at done
        cases walked : files.canonicalPlace mostLinks trail (Path.pieces path) with
        | error fault => simp [walked, Except.map] at done
        | ok place =>
          simp only [walked, Except.map, Except.ok.injEq] at done
          obtain ⟨leads, begins, grounded, directory, names⟩ := start?_spec anchored starts
          have ends := canonicalPlace_answers mostLinks (Path.pieces path) leads grounded directory
          rw [walked] at ends
          exact ⟨trail.location, place, begins, grounded, names, done.symm, ends⟩
  · cases done

/-- A path without a place ends where something is missing, if it has pieces to follow and starts in the tree. -/
theorem canonical_lacks (anchored : files.Anchored) {path : String} (missing : files.canonical path = .error .notFound)
    (filled : path ≠ "") (reachable : Path.isAbsolute path = true ∨ files.lost = none) :
    ∃ result, Lacking result ∧ files.Ends true ⟨mostLinks, files.start path, Path.pieces path⟩ result := by
  obtain ⟨trail, starts⟩ := exists_start? anchored reachable
  rw [canonical, starts, if_neg filled] at missing
  split at missing
  · obtain ⟨leads, begins, grounded, directory, -⟩ := start?_spec anchored starts
    have answers := canonicalPlace_answers mostLinks (Path.pieces path) leads grounded directory
    rw [begins]
    cases walked : files.canonicalPlace mostLinks trail (Path.pieces path) with
    | ok place => simp [walked, Except.map] at missing
    | error fault =>
      simp only [walked, Except.map, Except.error.injEq] at missing
      rw [walked, missing] at answers
      exact answers
  · cases missing

end ConfigStore.FileSystem
