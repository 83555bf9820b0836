import ConfigStore.Proofs.Files.Canonical
import ConfigStore.Proofs.Files.Sight

/-! The absolute path without links to what a path leads to is the same in files that look the same all along the path. It
is built name by name, in both at a time. -/

namespace ConfigStore

/-- How long a path is depends on nothing but the names on the way. -/
theorem Trail.pathBytes_congr {here there : Trail} (same : there.location = here.location) (name : String) :
    there.pathBytes name = here.pathBytes name := by
  -- The location of a trail is made of its names, the last one first.
  have names : there.map Prod.fst = here.map Prod.fst := List.reverse_injective same
  have count : ∀ trail : Trail, trail.pathBytes name =
      (trail.map Prod.fst).foldl (fun bytes step => bytes + 1 + step.utf8ByteSize) (1 + name.utf8ByteSize) := by
    intro trail
    rw [List.foldl_map]
    rfl
  rw [count, count, names]

namespace FileSystem

section Steps

variable {files : FileSystem} {links : Nat} {here : Trail} {piece target : String} {rest : List String}

/-- Without pieces, the way leads to its place. -/
theorem canonicalPlace_nil : files.canonicalPlace links here [] = .ok here.location := by
  cases links with
  | zero => rfl
  | succ fewer => rfl

/-- A void piece is passed over. -/
theorem canonicalPlace_void (void : Path.isVoid piece = true) :
    files.canonicalPlace links here (piece :: rest) = files.canonicalPlace links here rest := by
  -- Whether any links are left decides only what happens at a link.
  cases links with
  | zero => rw [canonicalPlace, canonicalPieces, if_pos void]
  | succ fewer => rw [canonicalPlace, canonicalPieces, if_pos void]

/-- Two points lead to the directory above. -/
theorem canonicalPlace_up :
    files.canonicalPlace links here (".." :: rest) = files.canonicalPlace links here.tail rest := by
  cases links with
  | zero => rw [canonicalPlace, canonicalPieces, if_neg not_isVoid_up, if_pos rfl]
  | succ fewer => rw [canonicalPlace, canonicalPieces, if_neg not_isVoid_up, if_pos rfl]

/-- A name that cannot be looked up is a fault. -/
theorem canonicalPlace_fault (names : Path.Names piece) {fault : FileFault}
    (looked : files.lookUp here piece = .error fault) :
    files.canonicalPlace links here (piece :: rest) = .error fault := by
  cases links with
  | zero => rw [canonicalPlace, canonicalPieces, if_neg names.not_isVoid, if_neg names.down, looked]
  | succ fewer => rw [canonicalPlace, canonicalPieces, if_neg names.not_isVoid, if_neg names.down, looked]

/-- A link is followed with one link fewer, or there are too many. -/
theorem canonicalPlace_link (names : Path.Names piece) {child : Tree} (looked : files.lookUp here piece = .ok child)
    (link : child.node = .link target) :
    files.canonicalPlace links here (piece :: rest) = match links with
      | 0 => .error .tooManyLinks
      | fewer + 1 =>
        files.canonicalPlace fewer (if Path.isAbsolute target then [] else here) (Path.pieces target ++ rest) := by
  cases links with
  | zero =>
    rw [canonicalPlace, canonicalPieces, if_neg names.not_isVoid, if_neg names.down, looked]
    simp only [link]
  | succ fewer =>
    rw [canonicalPlace, canonicalPieces, if_neg names.not_isVoid, if_neg names.down, looked]
    simp only [link]

/-- What is no link is gone to, if it is a directory where one is needed. -/
theorem canonicalPlace_down (names : Path.Names piece) {child : Tree} (looked : files.lookUp here piece = .ok child)
    (solid : ∀ target, child.node ≠ .link target) :
    files.canonicalPlace links here (piece :: rest) =
      if needDirectory rest && !child.node.isDirectory then .error .notDirectory
      else files.canonicalPlace links ((piece, child) :: here) rest := by
  -- Nothing that is not a link asks how links are followed.
  have step : ∀ follow, files.canonicalPieces follow here (piece :: rest) =
      if needDirectory rest && !child.node.isDirectory then .error .notDirectory
      else files.canonicalPieces follow ((piece, child) :: here) rest := by
    intro follow
    rw [canonicalPieces, if_neg names.not_isVoid, if_neg names.down, looked]
    cases kind : child.node with
    | link target => exact absurd kind (solid target)
    | directory mode => simp only [kind]
    | file mode content => simp only [kind]
  cases links with
  | zero => exact step _
  | succ fewer => exact step _

/-- Behind what is no directory, no name is looked up. -/
theorem lookUp_of_plain (leads : here.Leads files.root) (plain : files.hasDirectory here.location = false) :
    files.lookUp here piece = .error (if pathBound ≤ here.pathBytes piece then .nameTooLong else .notDirectory) := by
  rw [hasDirectory_of_node (node?_location leads)] at plain
  rw [lookUp, plain]
  split <;> simp_all

/-- In a directory, a name is looked up by what is there. -/
theorem lookUp_of_directory (leads : here.Leads files.root) (inside : files.hasDirectory here.location = true) :
    files.lookUp here piece =
      if pathBound ≤ here.pathBytes piece then .error .nameTooLong
      else if mostNameBytes < piece.utf8ByteSize then .error .nameTooLong
      else match (here.tree files.root).below.tree? piece with
        | some child => .ok child
        | none => .error .notFound := by
  rw [hasDirectory_of_node (node?_location leads)] at inside
  rw [lookUp, inside]
  rfl

end Steps

variable {files other : FileSystem} {links : Nat} {here there : Trail} {piece : String} {pieces rest : List String}

/-- Behind what is no directory, pieces come to the same fault in both, unless they need a directory. -/
theorem canonicalPlace_congr_plain (leads : here.Leads files.root) (again : there.Leads other.root)
    (same : there.location = here.location) (plain : files.hasDirectory here.location = false)
    (alsoPlain : other.hasDirectory there.location = false) (unneeded : needDirectory pieces = false) :
    other.canonicalPlace links there pieces = files.canonicalPlace links here pieces := by
  -- Void pieces are passed over, and the first name is not looked up where there is no directory.
  induction pieces with
  | nil => rw [canonicalPlace_nil, canonicalPlace_nil, same]
  | cons piece rest ih =>
    rw [needDirectory] at unneeded
    by_cases void : Path.isVoid piece = true
    · rw [List.dropWhile_cons_of_pos void] at unneeded
      rw [canonicalPlace_void void, canonicalPlace_void void]
      refine ih ?_
      rw [needDirectory]
      split at unneeded
      · cases unneeded
      · exact unneeded
    · rw [List.dropWhile_cons_of_neg void] at unneeded
      have names : Path.Names piece := .of_not_isVoid void (by simpa using unneeded)
      rw [canonicalPlace_fault names (lookUp_of_plain leads plain),
        canonicalPlace_fault names (lookUp_of_plain again alsoPlain), Trail.pathBytes_congr same]

/-- What looking up a name comes to by two ways to one directory: the same fault, or the same to be seen. -/
theorem lookUp_alike (leads : here.Leads files.root) (again : there.Leads other.root)
    (same : there.location = here.location) (inside : files.hasDirectory here.location = true)
    (alsoInside : other.hasDirectory there.location = true)
    (seen : other.seen? (here.location ++ [piece]) = files.seen? (here.location ++ [piece])) :
    (∃ fault, files.lookUp here piece = .error fault ∧ other.lookUp there piece = .error fault) ∨
      ∃ child twin, files.lookUp here piece = .ok child ∧ other.lookUp there piece = .ok twin ∧
        piece.utf8ByteSize ≤ mostNameBytes ∧
        files.node? (here.location ++ [piece]) = some child.node ∧
        other.node? (here.location ++ [piece]) = some twin.node ∧
        Trail.Leads files.root ((piece, child) :: here) ∧ Trail.Leads other.root ((piece, twin) :: there) := by
  rw [lookUp_of_directory leads inside, lookUp_of_directory again alsoInside, Trail.pathBytes_congr same]
  by_cases far : pathBound ≤ here.pathBytes piece
  · rw [if_pos far, if_pos far]
    exact .inl ⟨_, rfl, rfl⟩
  · rw [if_neg far, if_neg far]
    by_cases long : mostNameBytes < piece.utf8ByteSize
    · rw [if_pos long, if_pos long]
      exact .inl ⟨_, rfl, rfl⟩
    · rw [if_neg long, if_neg long]
      -- What is below the two ways is what is at one place.
      have one := node?_location_append leads piece
      have two := node?_location_append again piece
      rw [same] at two
      have both := isSome_of_seen seen
      rw [one, two, Option.isSome_map, Option.isSome_map] at both
      cases found : (here.tree files.root).below.tree? piece with
      | none =>
        rw [found, Option.isSome_none, Option.isSome_eq_false_iff, Option.isNone_iff_eq_none] at both
        rw [both]
        exact .inl ⟨_, rfl, rfl⟩
      | some child =>
        rw [found, Option.isSome_some] at both
        obtain ⟨twin, found'⟩ := Option.isSome_iff_exists.1 both
        rw [found'] at two ⊢
        rw [found] at one
        exact .inr ⟨child, twin, rfl, rfl, Nat.not_lt.1 long, one, two, .step leads found, .step again found'⟩

/-- Following pieces comes to the same place in both, if it does with fewer links. -/
theorem canonicalPlace_congr_step
    (linked : ∀ fewer, links = fewer + 1 → ∀ {here there : Trail} {pieces : List String}, here.Leads files.root →
      there.Leads other.root → there.location = here.location → files.Grounded here.location →
      files.hasDirectory here.location = true → Alike files other ⟨fewer, some here.location, pieces⟩ →
      other.canonicalPlace fewer there pieces = files.canonicalPlace fewer here pieces)
    (leads : here.Leads files.root) (again : there.Leads other.root) (same : there.location = here.location)
    (grounded : files.Grounded here.location)
    (settled : files.hasDirectory here.location = true ∨ needDirectory pieces = false)
    (alike : Alike files other ⟨links, some here.location, pieces⟩) :
    other.canonicalPlace links there pieces = files.canonicalPlace links here pieces := by
  -- By induction on the pieces, so that only the hypothesis is needed where a link is followed.
  induction pieces generalizing here there with
  | nil => rw [canonicalPlace_nil, canonicalPlace_nil, same]
  | cons piece rest ih =>
    have directories : other.hasDirectory there.location = files.hasDirectory here.location := by
      rw [same]
      exact hasDirectory_of_seen ((alike.agrees .refl).seen _ .here)
    by_cases inside : files.hasDirectory here.location = true
    · by_cases void : Path.isVoid piece = true
      · rw [canonicalPlace_void void, canonicalPlace_void void]
        exact ih leads again same grounded (.inl inside) (alike.later (.single (.void inside void)))
      · by_cases up : piece = ".."
        · subst up
          have above := alike.later (.single (.up inside))
          have upper := grounded.up
          have parent := grounded.directory_up inside
          rw [← Trail.location_tail] at above upper parent
          rw [canonicalPlace_up, canonicalPlace_up]
          exact ih leads.tail again.tail (by rw [Trail.location_tail, Trail.location_tail, same]) upper (.inl parent) above
        · have names : Path.Names piece := .of_not_isVoid void up
          have seen := (alike.agrees .refl).seen _ (.below inside names)
          rcases lookUp_alike leads again same inside (directories.trans inside) seen with
            ⟨fault, looked, looked'⟩ | ⟨child, twin, looked, looked', short, found, found', further, further'⟩
          · rw [canonicalPlace_fault names looked, canonicalPlace_fault names looked']
          · by_cases solid : ∀ target, child.node ≠ .link target
            · -- What is gone to is a directory in both or in none.
              obtain ⟨node, there', plain, kind⟩ := exists_solid_of_seen seen found solid
              obtain rfl := Option.some.inj (found'.symm.trans there')
              rw [canonicalPlace_down names looked solid, canonicalPlace_down names looked' plain, kind]
              split
              · rfl
              · next fits =>
                have behind := alike.later (.single (.down inside names short found solid))
                have deeper := grounded.down inside piece
                rw [← Trail.location_cons piece child] at behind deeper
                refine ih further further' (by rw [Trail.location_cons, Trail.location_cons, same]) deeper ?_ behind
                rw [Trail.location_cons, hasDirectory_of_node found]
                by_cases directory : child.node.isDirectory = true
                · exact .inl directory
                · exact .inr (by simpa [directory] using fits)
            · obtain ⟨target, link⟩ := not_forall_not.1 solid
              rw [link] at found
              have link' := Option.some.inj (found'.symm.trans (node?_of_seen seen rfl found))
              rw [canonicalPlace_link names looked link, canonicalPlace_link names looked' link']
              cases links with
              | zero => rfl
              | succ fewer =>
                have behind := alike.later (.single (.link inside names short found (.inr rfl)))
                simp only
                by_cases absolute : Path.isAbsolute target = true
                · rw [if_pos absolute] at behind
                  rw [if_pos absolute, if_pos absolute]
                  exact linked fewer rfl .root .root rfl (.root files) (grounded.directory_root inside) behind
                · rw [if_neg absolute] at behind
                  rw [if_neg absolute, if_neg absolute]
                  exact linked fewer rfl leads again same grounded inside behind
    · rw [Bool.not_eq_true] at inside
      refine canonicalPlace_congr_plain leads again same inside (directories.trans inside) ?_
      exact settled.resolve_left (by simp [inside])

/-- Following pieces from a directory comes to the same place in both. -/
theorem canonicalPlace_congr (links : Nat) (leads : here.Leads files.root) (again : there.Leads other.root)
    (same : there.location = here.location) (grounded : files.Grounded here.location)
    (inside : files.hasDirectory here.location = true) (alike : Alike files other ⟨links, some here.location, pieces⟩) :
    other.canonicalPlace links there pieces = files.canonicalPlace links here pieces := by
  -- Each link that is followed leaves one fewer.
  induction links generalizing here there pieces with
  | zero =>
    refine canonicalPlace_congr_step (fun fewer more => ?_) leads again same grounded (.inl inside) alike
    exact absurd more (Nat.succ_ne_zero fewer).symm
  | succ fewer ih =>
    refine canonicalPlace_congr_step (fun less more => ?_) leads again same grounded (.inl inside) alike
    obtain rfl := Nat.succ.inj more
    exact ih

/-- The absolute path without links to what a path leads to is the same. -/
theorem Alike.canonical {path : String} (alike : Alike files other (files.walkOf path)) (anchored : files.Anchored)
    (otherAnchored : other.Anchored) : other.canonical path = files.canonical path := by
  rw [FileSystem.canonical, FileSystem.canonical]
  by_cases reachable : Path.isAbsolute path = true ∨ files.lost = none
  · obtain ⟨here, starts⟩ := exists_start? anchored reachable
    obtain ⟨there, starts'⟩ := exists_start? otherAnchored (alike.lost ▸ reachable)
    obtain ⟨leads, begins, grounded, inside, -⟩ := start?_spec anchored starts
    obtain ⟨again, begins', -⟩ := start?_spec otherAnchored starts'
    rw [alike.start, begins, Option.some.injEq] at begins'
    rw [FileSystem.walkOf, begins] at alike
    rw [starts, starts']
    simp only [canonicalPlace_congr mostLinks leads again begins'.symm grounded inside alike]
  · -- Nothing is found from a directory that has been taken away.
    obtain ⟨relative, gone⟩ := not_or.1 reachable
    have nowhere : ∀ files : FileSystem, files.lost ≠ none → files.start? path = none := by
      intro files gone
      rw [start?, if_neg relative, if_pos (Option.isSome_iff_ne_none.2 gone)]
    rw [nowhere files gone, nowhere other (alike.lost ▸ gone)]

end FileSystem

end ConfigStore
