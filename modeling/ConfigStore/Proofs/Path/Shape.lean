import ConfigStore.Proofs.Path.Parent

/-! The shape of a path and its pieces. What is above a shape has the pieces in front of the last name, but for void ones
at their end. -/

namespace ConfigStore.Path

/-- The names among some pieces. -/
def namesOf (pieces : List String) : List String :=
  pieces.filter fun piece => !isVoid piece

section NamesOf

variable {piece : String} {front back : List String}

/-- A void piece is no name. -/
theorem namesOf_cons_void (void : isVoid piece = true) : namesOf (piece :: back) = namesOf back := by
  rw [namesOf, List.filter_cons_of_neg (by simp [void]), namesOf]

/-- A piece that names something is a name. -/
theorem namesOf_cons_name (names : Names piece) : namesOf (piece :: back) = piece :: namesOf back := by
  rw [namesOf, List.filter_cons_of_pos (by simp [names.solid]), namesOf]

/-- The names of pieces in front come first. -/
theorem namesOf_append : namesOf (front ++ back) = namesOf front ++ namesOf back :=
  List.filter_append ..

/-- Void pieces have no names. -/
theorem namesOf_of_void (void : ∀ piece ∈ back, isVoid piece = true) : namesOf back = [] := by
  rw [namesOf, List.filter_eq_nil_iff]
  intro piece member
  simp [void piece member]

/-- Names are all of their names. -/
theorem namesOf_of_names (proper : ∀ piece ∈ back, Names piece) : namesOf back = back := by
  rw [namesOf, List.filter_eq_self]
  intro piece member
  simp [(proper piece member).solid]

/-- A name with void pieces behind it is the last one. -/
theorem namesOf_last {voids : List String} (names : Names piece) (void : ∀ other ∈ voids, isVoid other = true) :
    namesOf (front ++ piece :: voids) = namesOf front ++ [piece] := by
  rw [namesOf_append, namesOf_cons_name names, namesOf_of_void void]

/-- Pieces of which none is a name are void. -/
theorem void_of_namesOf (bare : namesOf back = []) : ∀ piece ∈ back, isVoid piece = true := by
  rw [namesOf, List.filter_eq_nil_iff] at bare
  intro piece member
  simpa using bare piece member

/-- Pieces of which some are names have a last one, with void pieces behind it. -/
theorem exists_last_name {pieces names : List String} {name : String} (named : namesOf pieces = names ++ [name]) :
    ∃ inner voids, pieces = inner ++ name :: voids ∧ namesOf inner = names ∧ isVoid name = false ∧
      ∀ piece ∈ voids, isVoid piece = true := by
  obtain ⟨solid, voids, rfl, void, -, kind⟩ := exists_voids pieces
  rw [namesOf_append, namesOf_of_void void, List.append_nil] at named
  rcases kind with rfl | ⟨inner, last, rfl, filled⟩
  · simp [namesOf] at named
  · have own : namesOf [last] = [last] := by simp [namesOf, filled]
    rw [namesOf_append, own] at named
    obtain ⟨same, rfl⟩ := List.append_singleton_inj.1 named
    exact ⟨inner, voids, by simp, same, filled, void⟩

end NamesOf

namespace Shape

/-- A shape spells the pieces of its path. The slash of the root stands behind an empty piece, and the current directory
is a piece. -/
inductive Spells : Shape → List String → Prop
  | root {rest : List String} (more : rest ≠ []) : Spells ⟨"/", rest.reverse⟩ ("" :: rest)
  | point {rest : List String} (more : rest ≠ []) : Spells ⟨".", ("" :: rest).reverse⟩ ("." :: rest)
  | plain {rest : List String} (more : rest ≠ []) : Spells ⟨"", rest.reverse⟩ rest

variable {shape : Shape} {whole : List String}

/-- A shape spells some pieces. -/
theorem Spells.ne_nil (spells : shape.Spells whole) : whole ≠ [] := by
  cases spells with
  | root more => exact List.cons_ne_nil _ _
  | point more => exact List.cons_ne_nil _ _
  | plain more => exact more

/-- The path consists of the pieces with slashes between them. -/
theorem Spells.path_eq (spells : shape.Spells whole) : shape.path = "/".intercalate whole := by
  cases spells with
  | @root rest more =>
    obtain ⟨first, others, rfl⟩ := List.exists_cons_of_ne_nil more
    rw [path, List.reverse_reverse, String.intercalate_cons_cons, String.empty_append]
  | @point rest more =>
    obtain ⟨first, others, rfl⟩ := List.exists_cons_of_ne_nil more
    rw [path, List.reverse_reverse, String.intercalate_cons_cons, String.empty_append, String.intercalate_cons_cons]
    rw [String.append_assoc]
  | plain more => rw [path, List.reverse_reverse, String.empty_append]

/-- The pieces of the path are those that are spelled. -/
theorem Spells.pieces_eq (spells : shape.Spells whole) (plain : ∀ piece ∈ whole, '/' ∉ piece.toList) :
    Path.pieces shape.path = whole := by
  rw [spells.path_eq, pieces_intercalate spells.ne_nil plain]

/-- A path other than the mere current directory has a shape that spells its pieces. -/
theorem ofPath_spells {path : String} (other : Path.pieces path ≠ ["."]) :
    (ofPath path).Spells (Path.pieces path) := by
  -- Behind the slash of the root, and behind a point and its slash, there is at least one piece.
  rcases ofPath_cases path with ⟨rest, shape, spelled, absolute⟩ | ⟨-, point⟩ | ⟨rest, shape, spelled, -⟩ | ⟨shape, -⟩
  · rw [shape, spelled]
    refine .root ?_
    obtain ⟨again, more, same⟩ := isAbsolute_iff.1 absolute
    rw [spelled] at same
    exact (List.cons.inj same).2 ▸ more
  · exact absurd point other
  · rw [shape, spelled]
    refine .point ?_
    rintro rfl
    exact other spelled
  · rw [shape]
    exact .plain (pieces_ne_nil path)

/-- What is above a shape, by the pieces that are left of those in front of a name. -/
inductive Rest : Shape → List String → Prop
  /-- A shape of its own. -/
  | spelled {shape : Shape} {solid : List String} (spells : shape.Spells solid) (ended : Ended solid) : Rest shape solid
  /-- The root. -/
  | root : Rest ⟨"/", []⟩ [""]
  /-- The current directory by its name. -/
  | point : Rest ⟨".", []⟩ ["."]
  /-- The current directory without a name. -/
  | nothing : Rest ⟨"", []⟩ []

/-- Above a shape that ends in a piece that is not void is one with the pieces in front, but for void ones at their end. -/
theorem Spells.above {front voids : List String} {name : String} (spells : shape.Spells (front ++ name :: voids))
    (filled : isVoid name = false) (void : ∀ piece ∈ voids, isVoid piece = true) :
    ∃ parent solid gaps, shape.parent? = some parent ∧ front = solid ++ gaps ∧ (∀ piece ∈ gaps, isVoid piece = true) ∧
      parent.Rest solid := by
  -- Whatever the path begins with, the name and the pieces behind it are dropped alike.
  have dropped : ∀ lead inner, parent? ⟨lead, (inner ++ name :: voids).reverse⟩ =
      some ⟨lead, inner.reverse.dropWhile isVoid⟩ := by
    intro lead inner
    have passed : voids.reverse.dropWhile isVoid = [] := by
      rw [List.dropWhile_eq_nil_iff]
      exact fun piece member => void piece (List.mem_reverse.1 member)
    rw [parent?, List.reverse_append, List.reverse_cons, List.append_assoc, List.dropWhile_append, passed,
      List.isEmpty_nil, if_pos rfl, List.singleton_append, List.dropWhile_cons_of_neg (by simp [filled])]
  generalize spelled : front ++ name :: voids = whole at spells
  cases spells with
  | @root rest more =>
    -- The empty piece in front of the first slash is not the name.
    cases front with
    | nil =>
      have empty : name = "" := (List.cons.inj spelled).1
      exact absurd filled (empty ▸ by decide)
    | cons first inner =>
      obtain ⟨rfl, rfl⟩ := List.cons.inj spelled
      obtain ⟨solid, gaps, rfl, empty, left, kind⟩ := exists_voids inner
      refine ⟨_, "" :: solid, gaps, dropped _ _, rfl, empty, ?_⟩
      rw [left]
      rcases kind with rfl | ended
      · exact .root
      · obtain ⟨ahead, last, rfl, filled⟩ := ended
        exact .spelled (.root (by simp)) ⟨"" :: ahead, last, rfl, filled⟩
  | @point rest more =>
    cases front with
    | nil =>
      -- A point is void.
      have point : name = "." := (List.cons.inj spelled).1
      exact absurd filled (point ▸ by decide)
    | cons first inner =>
      obtain ⟨rfl, rfl⟩ := List.cons.inj spelled
      obtain ⟨solid, gaps, shown, empty, left, kind⟩ := exists_voids ("" :: inner)
      have found := dropped "." ("" :: inner)
      rw [List.cons_append, left] at found
      rcases kind with rfl | ended
      · refine ⟨_, ["."], inner, found, rfl, fun piece member => empty piece ?_, .point⟩
        rw [List.nil_append] at shown
        exact shown ▸ List.mem_cons_of_mem _ member
      · obtain ⟨kept, rfl, rfl, last⟩ := exists_kept shown ended
        refine ⟨_, "." :: kept, gaps, found, rfl, empty, .spelled (.point last.ne_nil) ?_⟩
        obtain ⟨ahead, final, rfl, filled⟩ := last
        exact ⟨"." :: ahead, final, rfl, filled⟩
  | plain more =>
    subst spelled
    obtain ⟨solid, gaps, rfl, empty, left, kind⟩ := exists_voids front
    refine ⟨_, solid, gaps, dropped _ _, rfl, empty, ?_⟩
    rw [left]
    rcases kind with rfl | ended
    · exact .nothing
    · exact .spelled (.plain ended.ne_nil) ended

end Shape

end ConfigStore.Path
