import ConfigStore.Proofs.Backend.Placed

/-! Creating the directory of a domain below a home with nothing in it. It makes the directories along the domain's names
and nothing else, and then it is done for good. Only a domain that ends in a point behind a name is not created. -/

namespace ConfigStore

open FileSystem

variable {files : FileSystem} {home domain path : String} {base : Location}

namespace FileSystem

/-- A path that leads to a directory leads below it. -/
theorem based_of_resolve (leads : files.resolve true path = .ok (.found base))
    (inside : files.hasDirectory base = true) : files.Based path base [] := by
  -- A walk that follows links ends there with no pieces left.
  have ends : files.Ends true ⟨mostLinks, files.start path, Path.pieces path⟩ (files.resolve true path) :=
    resolvePieces_ends (pathFault?_of_resolve leads) _
  rw [leads] at ends
  obtain ⟨last, run, halts⟩ := ends
  cases halts with
  | @found links _ _ => exact ⟨inside, List.not_mem_nil, Path.pieces path, links, (List.append_nil _).symm, run⟩
  | link _ _ _ _ kept => cases kept

/-- Where nothing is in the way of a directory, it is there or made, or something is missing. -/
theorem Created.done_or_missing {names : List String} {name : String} {answer : Except FileFault Unit × FileSystem}
    (created : Created files base names name path answer) (free : files.Free base (names ++ [name])) :
    answer.1 = .ok () ∨ answer.1 = .error .notFound := by
  cases created with
  | there _ => exact .inl rfl
  | made _ _ _ _ => exact .inl rfl
  | pointed _ _ _ _ => exact .inr rfl
  | absent _ => exact .inr rfl
  | blocked _ _ closed => exact absurd free closed

/-- Where nothing is in the way of directories, they are made, or something is missing all the same. -/
theorem Below.done_or_missing {pieces : List String} (below : files.Below path base pieces)
    (free : files.Free base (Path.namesOf pieces)) :
    (files.ensureDirectories path).1 = .ok () ∨ (files.ensureDirectories path).1 = .error .notFound := by
  rcases List.eq_nil_or_concat (Path.namesOf pieces) with bare | ⟨names, name, named⟩
  · -- Without names, nothing is to be done.
    refine .inl ((ensureDirectories_ensured below).done.2 ⟨List.prefix_rfl, free, fun _ _ => ?_⟩)
    rw [bare, List.append_nil]
    exact below.inside
  · rw [List.concat_eq_append] at named
    rw [named] at free
    have lone : Path.pieces path ≠ ["."] := by
      intro point
      obtain ⟨front, _, whole, -⟩ := below.run
      have void : Path.namesOf (front ++ pieces) = [] := by
        rw [← whole, point]
        decide
      rw [Path.namesOf_append, named] at void
      simp at void
    have same := Path.Shape.path_ofPath path
    have plain : ∀ piece ∈ Path.pieces path, '/' ∉ piece.toList := fun piece member =>
      Path.not_mem_of_mem_pieces member
    obtain ⟨parent, found, above⟩ := Below.parent (same.symm ▸ below) (Path.Shape.ofPath_spells lone) plain named
    have filled : ¬(Path.Shape.ofPath path).path.isEmpty = true := by
      rw [same]
      intro empty
      have sound := below.sound
      rw [String.isEmpty_iff.1 empty] at sound
      exact absurd sound (by decide)
    rw [ensureDirectories]
    by_cases absent : (files.ensureDirectory path).1 = .error .notFound
    · -- What is above is made first, and leaves the way as free as it was.
      rw [ensureShape_of_absent filled (same.symm ▸ absent) found, same]
      rcases above with ⟨-, settled⟩ | ⟨solid, inner, spells, inside, upper, own, level⟩
      · rw [settled]
        exact .inr absent
      · have first := ensureShape_ensured upper spells inside
        rw [own, eq_false level] at first
        have done := first.done.2 ⟨List.prefix_rfl, free.mono (List.prefix_append ..), fun _ never => never.elim⟩
        generalize files.ensureShape parent = answer at first done
        obtain ⟨result, middle⟩ := answer
        obtain rfl : result = .ok () := done
        exact ((below.grows first.grows).created named).done_or_missing ((first.extends.free_iff _ _).2 free)
    · rw [ensureShape_of_answer filled (same.symm ▸ absent), same]
      exact (below.created named).done_or_missing free

end FileSystem

/-- A path put together of a home without fault and a path without the character that ends paths has no fault, if it is
short enough. -/
theorem pathFault?_join (sound : pathFault? home = none) (relative : Path.isAbsolute path = false)
    (clean : '\x00' ∉ path.toList) (short : (Path.join home path).utf8ByteSize < pathBound) :
    pathFault? (Path.join home path) = none := by
  have own : (∀ char ∈ home.toList, char ≠ '\x00') ∧ home ≠ "" := by
    rw [pathFault?] at sound
    split at sound
    · next plain =>
      split at sound
      · cases sound
      · next filled => exact ⟨by simpa using plain, filled⟩
    · cases sound
  -- What is between the two is a slash or nothing.
  obtain ⟨slash, joined, plain⟩ : ∃ slash : String, Path.join home path = home ++ slash ++ path ∧
      '\x00' ∉ slash.toList := by
    rw [Path.join, if_neg (by simp [relative])]
    split
    · exact ⟨"", by simp, by decide⟩
    · exact ⟨"/", rfl, by decide⟩
  have filled : Path.join home path ≠ "" := by
    rw [joined]
    intro empty
    have bare := congrArg String.toList empty
    rw [String.toList_append, String.toList_append] at bare
    simp only [String.toList_empty, List.append_eq_nil_iff] at bare
    exact own.2 (String.toList_eq_nil_iff.1 bare.1.1)
  rw [pathFault?, if_pos, if_neg filled, if_neg (by omega)]
  rw [joined, List.all_eq_true]
  intro char member
  rw [String.toList_append, String.toList_append, List.mem_append, List.mem_append] at member
  rw [bne_iff_ne]
  rcases member with (before | between) | behind
  · exact own.1 char before
  · rintro rfl
    exact plain between
  · rintro rfl
    exact clean behind

/-- A relative path that is not empty has a piece that is not. -/
theorem exists_filled_piece (filled : path ≠ "") (relative : Path.isAbsolute path = false) :
    ∃ piece ∈ Path.pieces path, ¬piece.isEmpty = true := by
  obtain ⟨first, text, spelled⟩ := List.exists_cons_of_ne_nil (mt String.toList_eq_nil_iff.1 filled)
  -- The first character is no slash, so it is in the first piece.
  have other : first ≠ '/' := by
    rintro rfl
    simp [Path.isAbsolute, spelled] at relative
  obtain ⟨piece, pieces, behind⟩ := List.exists_cons_of_ne_nil (separate_ne_nil '/' text)
  refine ⟨String.ofList (first :: piece), ?_, by simp⟩
  simp [Path.pieces, spelled, separate_cons_other other behind]

/-- A relative path ends in a point behind a home if it does on its own. -/
theorem pointed_join_iff (filled : path ≠ "") (relative : Path.isAbsolute path = false) :
    FileSystem.Pointed (Path.join home path) ↔ FileSystem.Pointed path := by
  obtain ⟨front, joined, -⟩ := Path.pieces_join home relative
  obtain ⟨piece, member, solid⟩ := exists_filled_piece filled relative
  have filled : (Path.pieces path).reverse.dropWhile String.isEmpty ≠ [] := by
    rw [Ne, List.dropWhile_eq_nil_iff]
    exact fun all => solid (all piece (List.mem_reverse.2 member))
  have kept : (openPieces (Path.join home path)).getLast? = (openPieces path).getLast? := by
    rw [openPieces, openPieces, joined, List.reverse_append, List.dropWhile_append,
      if_neg (by simpa using filled), List.getLast?_reverse, List.getLast?_reverse, List.head?_append_of_ne_nil _ filled]
  rw [FileSystem.Pointed, FileSystem.Pointed, kept]

/-- A home that leads to a directory with nothing in it, and a domain that is accepted and short enough. -/
structure Creatable (files : FileSystem) (home domain : String) (base : Location) : Prop where
  /-- The home leads to the base. -/
  leads : files.resolve true home = .ok (.found base)
  /-- The base is a directory. -/
  inside : files.hasDirectory base = true
  /-- Nothing is in it. -/
  bare : ∀ place, place ≠ [] → files.node? (base ++ place) = none
  /-- The domain is without fault. -/
  accepted : domainFault? domain = none
  /-- It does not hold the character that ends paths. -/
  clean : '\x00' ∉ domain.toList
  /-- No name is too long. -/
  short : ∀ name ∈ Path.names domain, name.utf8ByteSize ≤ mostNameBytes
  /-- Nor is the path of its directory. -/
  fits : (Path.join home domain).utf8ByteSize < pathBound

/-- A domain that ends in a point behind a name, slashes aside. -/
def EndsPointed (domain : String) : Prop :=
  FileSystem.Pointed domain ∧ Path.names domain ≠ []

/-- The first names of a domain, along which a directory is created: one or more, and not all of them if the domain ends
in a point. -/
structure MadeAlong (domain : String) (front : List String) : Prop where
  /-- The names are the first ones. -/
  within : front <+: Path.names domain
  /-- There is one. -/
  filled : front ≠ []
  /-- Behind a point, the last directory is not created. -/
  level : FileSystem.Pointed domain → front ≠ Path.names domain

namespace Creatable

/-- The path of the directory has no fault. -/
theorem sound (creatable : Creatable files home domain base) : pathFault? (Path.join home domain) = none :=
  pathFault?_join (pathFault?_of_resolve creatable.leads) (domainFault?_eq_none_iff.1 creatable.accepted).2.1
    creatable.clean creatable.fits

/-- The domain is placed below the base. -/
theorem placed (creatable : Creatable files home domain base) :
    Placed files home domain base (Path.names domain) :=
  (based_of_resolve creatable.leads creatable.inside).placed (domainDirectory_eq_ok_iff.2 ⟨creatable.accepted, rfl⟩)
    (unlinked_of_bare creatable.inside creatable.bare _)

/-- Nothing is in the way. -/
theorem free (creatable : Creatable files home domain base) : files.Free base (Path.names domain) where
  short := creatable.short
  solid front _ := by
    by_cases above : front = []
    · rw [above, List.append_nil]
      exact .inr creatable.inside
    · exact .inl (creatable.bare front above)

/-- The directory is made, or something is missing. -/
theorem done_or_missing (creatable : Creatable files home domain base) :
    (files.ensureDirectories (Path.join home domain)).1 = .ok () ∨
      (files.ensureDirectories (Path.join home domain)).1 = .error .notFound := by
  obtain ⟨pieces, same, below⟩ := creatable.placed.directory creatable.sound
  exact below.done_or_missing (same ▸ creatable.free)

/-- Below the base there is no directory yet. -/
theorem hasDirectory_iff (creatable : Creatable files home domain base) {front : List String} :
    files.hasDirectory (base ++ front) = true ↔ front = [] := by
  constructor
  · intro there
    apply Decidable.byContradiction
    intro filled
    rw [hasDirectory_of_absent (creatable.bare front filled)] at there
    cases there
  · rintro rfl
    rw [List.append_nil]
    exact creatable.inside

/-- Names in front lead to a directory afterwards if it is the base, or is created. -/
theorem reaches_iff (creatable : Creatable files home domain base) {front : List String} :
    files.Reaches base (Path.names domain) (FileSystem.Pointed (Path.join home domain)) front ↔
      front = [] ∨ MadeAlong domain front := by
  obtain ⟨filled, relative, -⟩ := domainFault?_eq_none_iff.1 creatable.accepted
  rw [pointed_join_iff filled relative]
  constructor
  · intro reaches
    by_cases above : front = []
    · exact .inl above
    · refine .inr ⟨reaches.within, above, fun pointed same => above ?_⟩
      exact same.trans (creatable.hasDirectory_iff.1 (reaches.level same pointed))
  · rintro (rfl | made)
    · refine ⟨List.nil_prefix, creatable.free.mono List.nil_prefix, fun same _ => ?_⟩
      exact creatable.hasDirectory_iff.2 same.symm
    · exact ⟨made.within, creatable.free.mono made.within, fun same pointed => absurd same (made.level pointed)⟩

/-- All names do unless the domain ends in a point behind one of them. -/
theorem reaches_last_iff (creatable : Creatable files home domain base) :
    files.Reaches base (Path.names domain) (FileSystem.Pointed (Path.join home domain)) (Path.names domain) ↔
      ¬EndsPointed domain := by
  rw [creatable.reaches_iff]
  constructor
  · rintro (above | made) ⟨pointed, filled⟩
    · exact filled above
    · exact made.level pointed rfl
  · intro ends
    by_cases above : Path.names domain = []
    · exact .inl above
    · exact .inr ⟨List.prefix_rfl, above, fun pointed _ => ends ⟨pointed, above⟩⟩

end Creatable

/-- Creating the directory of a domain below a home with nothing in it. The directories along the domain's names are made
and nothing else. It succeeds unless the domain ends in a point behind a name, and when it is done again after that,
nothing changes. -/
theorem ensureDomain_creates {world : World} (creatable : Creatable world.files home domain base) :
    ∃ made : FileSystem,
      ((World.ensureDomain home domain).after world).2 = { world with files := made } ∧
      (∀ front, MadeAlong domain front → made.hasDirectory (base ++ front) = true) ∧
      (∀ place, (∀ front, MadeAlong domain front → place ≠ base ++ front) →
        made.node? place = world.files.node? place) ∧
      (EndsPointed domain →
        ((World.ensureDomain home domain).after world).1 = .error (.file (Path.join home domain) .notFound)) ∧
      (¬EndsPointed domain →
        ((World.ensureDomain home domain).after world).1 = .ok (settingsPath home domain) ∧
        made.isDirectory (Path.join home domain) = true ∧
        (World.ensureDomain home domain).after { world with files := made } =
          (.ok (settingsPath home domain), { world with files := made })) := by
  have placed := creatable.placed
  have ensured := placed.ensured creatable.sound
  have either := creatable.done_or_missing
  have run := World.ensureDomain_after home domain world
  simp only [placed.located] at run
  generalize world.files.ensureDirectories (Path.join home domain) = answer at ensured either run
  obtain ⟨result, made⟩ := answer
  -- It is done if the last name leads to a directory, which is so unless a point is behind it.
  have done : result = .ok () ↔ ¬EndsPointed domain := by
    rw [← creatable.reaches_last_iff]
    exact ensured.done
  refine ⟨made, ?_, fun front along => ?_, fun place apart => ?_, fun ends => ?_, fun ends => ?_⟩
  · rw [run]
    cases result <;> rfl
  · exact ensured.made front (creatable.reaches_iff.2 (.inr along))
  · refine (ensured.node place).resolve_right ?_
    rintro ⟨absent, -, front, reaches, spelled⟩
    rcases creatable.reaches_iff.1 reaches with rfl | along
    · -- The base was there before.
      rw [spelled, List.append_nil] at absent
      exact absurd absent (Option.isSome_iff_ne_none.1 (isSome_of_hasDirectory creatable.inside))
    · exact apart front along spelled
  · obtain rfl := either.resolve_left fun success => done.1 success ends
    rw [run]
  · obtain rfl := done.2 ends
    have after := placed.grows ensured.grows
    have isOpen := ensured.isOpen rfl
    obtain ⟨pieces, same, below⟩ := after.directory creatable.sound
    have again := World.ensureDomain_after home domain { world with files := made }
    simp only [placed.located, after.ensureDirectories_of_open creatable.sound isOpen] at again
    exact ⟨by rw [run]; rfl, below.isDirectory_iff.2 (same ▸ isOpen), again⟩

/-- Below an empty root, a domain may be created if it is accepted and short enough. -/
theorem creatable_root (accepted : domainFault? domain = none) (clean : '\x00' ∉ domain.toList)
    (short : ∀ name ∈ Path.names domain, name.utf8ByteSize ≤ mostNameBytes)
    (fits : (Path.join "/" domain).utf8ByteSize < pathBound) : Creatable {} "/" domain [] where
  leads := by decide
  inside := by decide
  bare place filled := by
    cases place with
    | nil => exact absurd rfl filled
    | cons name rest => rfl
  accepted := accepted
  clean := clean
  short := short
  fits := fits

/-- A point at the beginning, a slash twice and one at the end are nothing to a domain that is created. -/
theorem ensureDomain_creates_slashed :
    Creatable {} "/" "./a//b/" [] ∧ ¬EndsPointed "./a//b/" ∧
    ∃ made : FileSystem,
      (World.ensureDomain "/" "./a//b/").after {} = (.ok "/./a//b/config", { files := made }) ∧
      made.hasDirectory ["a"] = true ∧ made.hasDirectory ["a", "b"] = true ∧
      made.isDirectory "/./a//b/" = true ∧
      (World.ensureDomain "/" "./a//b/").after { files := made } = (.ok "/./a//b/config", { files := made }) := by
  have creatable : Creatable {} "/" "./a//b/" [] :=
    creatable_root (by decide) (by decide) (by decide) (by decide)
  have level : ¬FileSystem.Pointed "./a//b/" := by
    unfold FileSystem.Pointed
    decide
  have ends : ¬EndsPointed "./a//b/" := fun pointed => level pointed.1
  obtain ⟨made, files, along, -, -, done⟩ := @ensureDomain_creates "/" "./a//b/" [] {} creatable
  obtain ⟨first, there, again⟩ := done ends
  exact ⟨creatable, ends, made, Prod.ext first files,
    along ["a"] ⟨by decide, by decide, fun pointed => absurd pointed level⟩,
    along ["a", "b"] ⟨by decide, by decide, fun pointed => absurd pointed level⟩, there, again⟩

/-- A point behind a name is accepted, but keeps the directory from being created. -/
theorem ensureDomain_pointed :
    Creatable {} "/" "a/." [] ∧
      (World.ensureDomain "/" "a/.").after {} = (.error (.file "/a/." .notFound), {}) := by
  refine ⟨creatable_root (by decide) (by decide) (by decide) (by decide), ?_⟩
  decide +kernel

end ConfigStore
