import ConfigStore.Proofs.Files.Based
import ConfigStore.Proofs.Files.Ensured

/-! Creating the directory of a path either changes nothing, or the path leads to a directory in which its next name is
missing. From there on, no link is on its way. -/

namespace ConfigStore

namespace Path.Shape

/-- A shape that is above another one, or the same: its pieces come first, and it ends in one that is not void, unless
nothing but a beginning is left. -/
inductive Upper (whole : List String) : Shape → Prop
  /-- All pieces are there. -/
  | same {shape : Shape} (spells : shape.Spells whole) : Upper whole shape
  /-- Some of them are left. -/
  | ended {shape : Shape} {solid behind : List String} (spells : shape.Spells solid) (split : whole = solid ++ behind)
    (ended : Ended solid) : Upper whole shape
  /-- Only the root is left. -/
  | root : Upper whole ⟨"/", []⟩
  /-- Only the current directory is left, by its name. -/
  | point : Upper whole ⟨".", []⟩
  /-- Only the current directory is left, without a name. -/
  | nothing : Upper whole ⟨"", []⟩

variable {whole solid behind : List String} {shape parent : Shape}

/-- Above a shape of which only void pieces are left is the current directory at most. -/
theorem Spells.parent?_of_void (spells : shape.Spells solid) (void : ∀ piece ∈ solid, isVoid piece = true)
    (above : shape.parent? = some parent) : parent = ⟨"", []⟩ := by
  have passed : ∀ pieces : List String, (∀ piece ∈ pieces, isVoid piece = true) → pieces.reverse.dropWhile isVoid = [] :=
    fun pieces void => List.dropWhile_eq_nil_iff.2 fun piece member => void piece (List.mem_reverse.1 member)
  cases spells with
  | @root inner _ =>
    rw [parent?, passed inner fun piece member => void piece (List.mem_cons_of_mem _ member)] at above
    cases above
  | @point inner _ =>
    have blank : ∀ piece ∈ "" :: inner, isVoid piece = true := by
      intro piece member
      rcases List.mem_cons.1 member with rfl | last
      · decide
      · exact void piece (List.mem_cons_of_mem _ last)
    rw [parent?, passed _ blank] at above
    exact (Option.some.inj above).symm
  | plain _ =>
    rw [parent?, passed _ void] at above
    cases above

/-- What is above pieces that come first comes first as well. -/
theorem Spells.upper (spells : shape.Spells solid) (split : whole = solid ++ behind)
    (above : shape.parent? = some parent) : Upper whole parent := by
  obtain ⟨inner, voids, shown, void, -, kind⟩ := exists_voids solid
  rcases kind with rfl | ⟨front, last, rfl, filled⟩
  · rw [shown, List.nil_append] at spells
    rw [spells.parent?_of_void void above]
    exact .nothing
  · rw [List.append_assoc, List.singleton_append] at shown
    rw [shown] at spells
    obtain ⟨other, solid, gaps, found, rfl, -, rest⟩ := spells.above filled void
    obtain rfl := Option.some.inj (found.symm.trans above)
    cases rest with
    | spelled spells ended => exact .ended spells (by rw [split, shown, List.append_assoc, List.append_assoc]) ended
    | root => exact .root
    | point => exact .point
    | nothing => exact .nothing

/-- What is above a shape that is above another one is above that one. -/
theorem Upper.above (upper : Upper whole shape) (above : shape.parent? = some parent) : Upper whole parent := by
  cases upper with
  | same spells => exact spells.upper (List.append_nil _).symm above
  | ended spells split _ => exact spells.upper split above
  | root => cases above
  | point =>
    obtain rfl := Option.some.inj above
    exact .nothing
  | nothing => cases above

/-- A path is above itself. -/
theorem upper_ofPath (path : String) : Upper (pieces path) (ofPath path) := by
  by_cases lone : pieces path = ["."]
  · have point : path = "." := by
      obtain ⟨text, single, spelled⟩ := List.map_eq_singleton_iff.1 lone
      have whole := intercalate_separate '/' path.toList
      rw [single, List.intercalate_singleton] at whole
      rw [← spelled, whole, String.ofList_toList]
    rw [point]
    exact .point
  · exact .same (ofPath_spells lone)

end Path.Shape

namespace FileSystem

open Path (namesOf)

variable {files : FileSystem} {path home name : String} {directory base : Location} {links : Nat}
  {here : Option Location}

/-- Creating the directory of a shape's path changes nothing, and is done if the path leads to one, or the directory of a
path above is created. -/
theorem ensureShape_cases {whole : List String} (files : FileSystem) (shape : Path.Shape)
    (upper : Path.Shape.Upper whole shape) :
    (∃ result, files.ensureShape shape = (result, files) ∧
        (result = .ok () → shape.path = "" ∨ files.isDirectory shape.path = true)) ∨
      ∃ above made, Path.Shape.Upper whole above ∧ files.makeDirectory above.path = .ok made := by
  -- By recursion as directories are created: the parent comes first where something is missing.
  by_cases empty : shape.path.isEmpty = true
  · rw [ensureShape.eq_def, if_pos empty]
    exact .inl ⟨_, rfl, fun _ => .inl (String.isEmpty_iff.1 empty)⟩
  · cases made : files.makeDirectory shape.path with
    | ok made => exact .inr ⟨shape, _, upper, made⟩
    | error fault =>
      have answer : files.ensureDirectory shape.path =
          (if files.isDirectory shape.path then .ok () else .error fault, files) := by
        rw [ensureDirectory, made]
      by_cases absent : (files.ensureDirectory shape.path).1 = .error .notFound
      · -- What is above comes first, and if nothing is made there, the same is missing again.
        have failed : files.ensureDirectory shape.path = (.error .notFound, files) := by
          rw [answer] at absent ⊢
          exact Prod.ext absent rfl
        cases above : shape.parent? with
        | none =>
          refine .inl ⟨.error .noParent, ?_, fun done => (by cases done)⟩
          rw [ensureShape.eq_def, if_neg empty, failed]
          simp only
          split
          · rfl
          · next other found =>
            rw [above] at found
            cases found
        | some parent =>
          rcases ensureShape_cases files parent (upper.above above) with ⟨result, same, -⟩ | made
          · rw [ensureShape_of_absent empty absent above, same]
            cases result with
            | error fault => exact .inl ⟨_, rfl, fun done => (by cases done)⟩
            | ok done =>
              simp only [failed]
              exact .inl ⟨_, rfl, fun done => (by cases done)⟩
          · exact .inr made
      · rw [ensureShape_of_answer empty absent, answer]
        refine .inl ⟨_, rfl, fun done => .inr ?_⟩
        by_contra plain
        rw [if_neg plain] at done
        cases done
termination_by shape.reversed.length + shape.lead.length
decreasing_by exact Path.Shape.parent?_lt above

/-- Without pieces, nothing is missing. -/
theorem Ends.not_missing_of_nil : ¬files.Ends false ⟨links, here, []⟩ (.ok (.missing directory name)) := by
  rintro ⟨final, run, halts⟩
  rcases run.cases with same | ⟨_, more, _⟩
  · subst same
    cases halts
  · cases more

/-- A walk by a single piece for which something is missing is in a directory, where nothing is by the piece. -/
theorem Ends.missing_of_last {last : String}
    (ends : files.Ends false ⟨links, here, [last]⟩ (.ok (.missing directory name))) :
    here = some directory ∧ last = name ∧ Path.Names name ∧ files.hasDirectory directory = true ∧
      files.node? (directory ++ [name]) = none := by
  obtain ⟨final, run, halts⟩ := ends
  rcases run.cases with same | ⟨next, moves, rest⟩
  · subst same
    cases halts with
    | missing inside names _ absent _ => exact ⟨rfl, rfl, names, inside, absent⟩
  · -- Behind the piece, none is left.
    have ended : next.pieces = [] := by
      cases moves with
      | link _ _ _ _ followed => simp at followed
      | _ => rfl
    obtain ⟨budget, place, pieces⟩ := next
    simp only at ended
    subst ended
    exact absurd ⟨final, rest, halts⟩ Ends.not_missing_of_nil

/-- Where a directory is created, the pieces in front of its name lead to the one in which it is. -/
theorem exists_missing {made : FileSystem} (done : files.makeDirectory path = .ok made) :
    ∃ front name behind links directory, Path.pieces path = front ++ name :: behind ∧
      files.Runs true ⟨mostLinks, files.start path, front⟩ ⟨links, some directory, []⟩ ∧
      files.hasDirectory directory = true ∧ Path.Names name ∧ files.node? (directory ++ [name]) = none := by
  rw [makeDirectory] at done
  cases leads : files.resolveEntry path with
  | error fault => simp [leads] at done
  | ok place =>
    cases place with
    | found place => simp [leads] at done
    | lost mode => simp [leads] at done
    | missing directory name =>
      have ends : files.Ends false ⟨mostLinks, files.start path, openPieces path⟩ (files.resolveEntry path) :=
        resolvePieces_ends (pathFault?_of_resolve leads) _
      rw [leads] at ends
      obtain ⟨empties, spelled, -⟩ := openPieces_append path
      rcases List.eq_nil_or_concat (openPieces path) with bare | ⟨front, last, shown⟩
      · rw [bare] at ends
        exact absurd ends Ends.not_missing_of_nil
      · rw [List.concat_eq_append] at shown
        rw [shown] at ends spelled
        have filled : last ≠ "" := by
          rintro rfl
          have solid := List.head?_dropWhile_not String.isEmpty (Path.pieces path).reverse
          rw [openPieces, List.reverse_eq_iff] at shown
          simp [shown] at solid
        obtain ⟨fewer, there, run, rest⟩ := ends.split ⟨last, List.mem_singleton_self last, filled⟩
        obtain ⟨rfl, rfl, names, inside, absent⟩ := rest.missing_of_last
        refine ⟨front, last, empties, fewer, directory, ?_, run, inside, names, absent⟩
        rw [spelled, List.append_assoc, List.singleton_append]

/-- Creating the directory of a path changes nothing, and is done if the path leads to one, or the path leads to a
directory in which its next name is missing. -/
theorem ensureDirectories_cases (files : FileSystem) (filled : path ≠ "") :
    (∃ result, files.ensureDirectories path = (result, files) ∧
        (result = .ok () → files.isDirectory path = true)) ∨
      pathFault? path = none ∧ ∃ front name behind links directory, Path.pieces path = front ++ name :: behind ∧
        files.Runs true ⟨mostLinks, files.start path, front⟩ ⟨links, some directory, []⟩ ∧
        files.hasDirectory directory = true ∧ Path.Names name ∧ files.node? (directory ++ [name]) = none := by
  cases fault : pathFault? path with
  | some fault =>
    rw [ensureDirectories_of_fault filled fault]
    exact .inl ⟨_, rfl, fun done => (by cases done)⟩
  | none =>
    have spelled := Path.Shape.path_ofPath path
    rcases ensureShape_cases files _ (Path.Shape.upper_ofPath path) with ⟨result, same, done⟩ | ⟨above, made, upper, done⟩
    · rw [spelled] at done
      exact .inl ⟨result, same, fun ok => (done ok).resolve_left filled⟩
    · refine .inr ⟨rfl, ?_⟩
      obtain ⟨front, name, behind, links, directory, whole, run, inside, names, absent⟩ := exists_missing done
      have plain : ∀ piece ∈ Path.pieces path, '/' ∉ piece.toList := fun piece member => Path.not_mem_of_mem_pieces member
      -- Where nothing but a beginning is left, there is no name.
      have named : ¬∀ piece ∈ Path.pieces above.path, Path.isVoid piece = true := fun void =>
        names.not_isVoid (void name (whole ▸ by simp))
      cases upper with
      | same spells =>
        have own := spells.pieces_eq plain
        have starts : files.start above.path = files.start path :=
          start_congr (by rw [Bool.eq_iff_iff, Path.isAbsolute_iff, Path.isAbsolute_iff, own])
        rw [own] at whole
        rw [starts] at run
        exact ⟨front, name, behind, links, directory, whole, run, inside, names, absent⟩
      | @ended _ solid more spells split ended =>
        have own := spells.pieces_eq fun piece member => plain piece (split ▸ List.mem_append_left _ member)
        rw [start_congr (isAbsolute_of_begins own split ended)] at run
        rw [own] at whole
        rw [whole, List.append_assoc] at split
        exact ⟨front, name, behind ++ more, links, directory, split, run, inside, names, absent⟩
      | root => exact absurd (by decide) named
      | point => exact absurd (by decide) named
      | nothing => exact absurd (by decide) named

/-- What is missing on the way of a path leads no way upwards, if the path does not lead upwards behind a base. -/
theorem level_of_missing {ahead tail front behind : List String} {fewer : Nat}
    (whole : ahead ++ tail = front ++ name :: behind) (level : ".." ∉ tail)
    (comes : files.Runs true ⟨mostLinks, here, ahead⟩ ⟨links, some base, []⟩)
    (run : files.Runs true ⟨mostLinks, here, front⟩ ⟨fewer, some directory, []⟩) (names : Path.Names name)
    (absent : files.node? (directory ++ [name]) = none) : ".." ∉ name :: behind := by
  have later : ∀ more, tail = more ++ name :: behind → ".." ∉ name :: behind := by
    rintro more rfl member
    exact level (List.mem_append_right _ member)
  rcases List.append_eq_append_iff.1 whole with ⟨more, rfl, split⟩ | ⟨more, rfl, split⟩
  · exact later more split
  · cases more with
    | nil => exact later [] split.symm
    | cons first more =>
      -- Otherwise the walk to the base would come by the name that is missing.
      obtain ⟨rfl, -⟩ := List.cons.inj split
      obtain ⟨left, there, before, after⟩ := comes.split (Nat.zero_le _)
      obtain ⟨rfl, rfl⟩ := before.unique run
      rcases after.cases with same | ⟨next, moves, -⟩
      · cases same
      · cases moves with
        | void _ void => exact absurd void names.not_isVoid
        | up _ => exact absurd rfl names.down
        | down _ _ _ found _ =>
          rw [absent] at found
          cases found
        | link _ _ _ found _ =>
          rw [absent] at found
          cases found

/-- Below a directory in which a name is missing, no link is on the way by the name. -/
theorem unlinked_of_absent (inside : files.hasDirectory directory = true) (names : Path.Names name)
    (absent : files.node? (directory ++ [name]) = none) (behind : List String) :
    files.Unlinked directory (namesOf (name :: behind)) := by
  rw [Path.namesOf_cons_name names]
  intro front before target
  rcases List.prefix_cons_iff.1 before with rfl | ⟨more, rfl, -⟩
  · rw [List.append_nil]
    exact not_link_of_hasDirectory inside
  · rw [List.append_cons, node?_below absent]
    simp

/-- Creating the directory of a relative path behind a home changes nothing, and is done if the path leads to one, or the
path goes on below a directory in which its next name is missing. -/
theorem Based.ensureDirectories_cases {rest : List String} (based : files.Based home base rest)
    (relative : Path.isAbsolute path = false) (level : ".." ∉ Path.pieces path) (filled : Path.join home path ≠ "") :
    (∃ result, files.ensureDirectories (Path.join home path) = (result, files) ∧
        (result = .ok () → files.isDirectory (Path.join home path) = true)) ∨
      ∃ directory name behind, files.Below (Path.join home path) directory (name :: behind) ∧ Path.Names name ∧
        files.node? (directory ++ [name]) = none := by
  refine (FileSystem.ensureDirectories_cases files filled).imp_right ?_
  rintro ⟨sound, front, name, behind, links, directory, whole, run, inside, names, absent⟩
  obtain ⟨ahead, fewer, more, shown, -, within, comes⟩ := based.exists_ahead relative
  have straight : ".." ∉ more ++ Path.pieces path := by
    intro up
    rcases List.mem_append.1 up with above | own
    · exact based.level (within _ above)
    · exact level own
  exact ⟨directory, name, behind, ⟨sound, inside, level_of_missing (shown.symm.trans whole) straight comes run names
    absent, unlinked_of_absent inside names absent behind, front, links, whole, run⟩, names, absent⟩

end FileSystem

end ConfigStore
