import Mathlib.Data.List.TakeWhile
import ConfigStore.Proofs.Path.Pieces

/-! The directory above a path. It leads where the pieces in front of the path's name do, and relative paths from there
begin with those, but for void ones at their end. -/

namespace ConfigStore.Path

/-- Pieces that end in one that is not void. -/
def Ended (pieces : List String) : Prop :=
  ∃ inner last, pieces = inner ++ [last] ∧ isVoid last = false

/-- Such pieces are not none. -/
theorem Ended.ne_nil {pieces : List String} (ended : Ended pieces) : pieces ≠ [] := by
  obtain ⟨inner, last, rfl, -⟩ := ended
  simp

/-- Without the void pieces at their end, pieces are none or end in one that is not void. -/
theorem exists_voids (pieces : List String) :
    ∃ solid voids, pieces = solid ++ voids ∧ (∀ piece ∈ voids, isVoid piece = true) ∧
      pieces.reverse.dropWhile isVoid = solid.reverse ∧ (solid = [] ∨ Ended solid) := by
  refine ⟨(pieces.reverse.dropWhile isVoid).reverse, (pieces.reverse.takeWhile isVoid).reverse, ?_, ?_,
    (List.reverse_reverse _).symm, ?_⟩
  · rw [← List.reverse_append, List.takeWhile_append_dropWhile, List.reverse_reverse]
  · intro piece member
    exact List.mem_takeWhile_imp (List.mem_reverse.1 member)
  · cases left : pieces.reverse.dropWhile isVoid with
    | nil => exact .inl rfl
    | cons last inner =>
      -- The first piece that is kept is not void.
      have solid := List.head?_dropWhile_not isVoid pieces.reverse
      rw [left] at solid
      exact .inr ⟨inner.reverse, last, List.reverse_cons, by simpa using solid⟩

/-- The shapes of paths, with their pieces. -/
theorem ofPath_cases (path : String) :
    (∃ rest, Shape.ofPath path = ⟨"/", rest.reverse⟩ ∧ pieces path = "" :: rest ∧ isAbsolute path = true) ∨
      (Shape.ofPath path = ⟨".", []⟩ ∧ pieces path = ["."]) ∨
      (∃ rest, Shape.ofPath path = ⟨".", ("" :: rest).reverse⟩ ∧ pieces path = "." :: rest ∧
        isAbsolute path = false) ∨
      (Shape.ofPath path = ⟨"", (pieces path).reverse⟩ ∧ isAbsolute path = false) := by
  -- Only the beginning of the path tells the shapes apart.
  unfold Shape.ofPath
  split
  · next rest spelled => exact .inl ⟨_, rfl, by simp [pieces, spelled], by simp [isAbsolute, spelled]⟩
  · next spelled =>
    have lone : separate '/' ['.'] = [['.']] := by decide
    exact .inr (.inl ⟨rfl, by simp [pieces, spelled, lone]⟩)
  · next rest spelled =>
    have first : separate '/' ('.' :: '/' :: rest) = ['.'] :: separate '/' rest :=
      separate_cons_other (by decide) (separate_cons_mark '/' rest)
    exact .inr (.inr (.inl ⟨_, rfl, by simp [pieces, spelled, first], by simp [isAbsolute, spelled]⟩))
  · next noSlash _ _ =>
    have relative : path.toList.head? ≠ some '/' := by
      intro begins
      obtain ⟨rest, spelled⟩ := List.head?_eq_some_iff.1 begins
      exact noSlash rest spelled
    exact .inr (.inr (.inr ⟨rfl, by simp [isAbsolute, relative]⟩))

/-- A directory above a path, to which some pieces lead with void ones behind them. -/
structure Above (path parent : String) (solid voids : List String) : Prop where
  /-- The directory is above the path. -/
  found : parent? path = some parent
  /-- The pieces behind are void. -/
  void : ∀ piece ∈ voids, isVoid piece = true
  /-- The directory begins where the path does. -/
  absolute : isAbsolute parent = isAbsolute path
  /-- Relative paths from the directory begin with its pieces. -/
  join : ∀ other, isAbsolute other = false → pieces (Path.join parent other) = solid ++ pieces other

/-- The shape of what is above a name lacks the name and the void pieces in front of it. -/
theorem Shape.parent?_of_names {name : String} (names : Names name) (lead : String) (inner : List String) :
    Shape.parent? ⟨lead, (inner ++ [name]).reverse⟩ = some ⟨lead, inner.reverse.dropWhile isVoid⟩ := by
  rw [Shape.parent?, List.reverse_append, List.reverse_singleton, List.singleton_append,
    List.dropWhile_cons_of_neg names.not_isVoid]

/-- Behind a base whose last piece is not void, all of its pieces stay. -/
theorem pieces_join_of_ended {base : String} {lead solid : List String} (spelled : pieces base = lead ++ solid)
    (ended : Ended solid) (other : String) (relative : isAbsolute other = false) :
    pieces (join base other) = lead ++ solid ++ pieces other := by
  -- A last piece that is not void is not empty, so no slash is at the end.
  obtain ⟨inner, last, rfl, filled⟩ := ended
  have more : last ≠ "" := by
    intro empty
    rw [empty] at filled
    exact absurd filled (by decide)
  have whole := spelled
  rw [← List.append_assoc] at whole
  rw [pieces_join_of_open relative whole more, spelled]

section Shapes

variable {path name : String} {inner : List String}

/-- What is above a path that begins at the root. -/
theorem above_of_root (names : Names name) (shape : Shape.ofPath path = ⟨"/", (inner ++ [name]).reverse⟩)
    (absolute : isAbsolute path = true) (plain : ∀ piece ∈ inner, '/' ∉ piece.toList) :
    ∃ parent solid voids, "" :: inner = solid ++ voids ∧ Above path parent solid voids := by
  -- What is left of the pieces follows on the slash of the root.
  obtain ⟨solid, voids, rfl, void, left, kind⟩ := exists_voids inner
  have parent : parent? path = some ("" ++ "/" ++ "/".intercalate solid) := by
    rw [parent?, shape, Shape.parent?_of_names names, left]
    simp [Shape.path]
  have begins : isAbsolute ("" ++ "/" ++ "/".intercalate solid) = isAbsolute path := by
    rw [absolute]
    simp [isAbsolute]
  refine ⟨_, "" :: solid, voids, rfl, parent, void, begins, ?_⟩
  rcases kind with rfl | ended
  · -- Nothing but void pieces is between the root and the name.
    intro other relative
    have root : join ("" ++ "/" ++ "/".intercalate []) other = "" ++ "/" ++ other := by
      simp [join, relative]
    rw [root, pieces_append]
    rfl
  · have inside : ∀ piece ∈ solid, '/' ∉ piece.toList := fun piece member =>
      plain piece (List.mem_append_left _ member)
    have spelled : pieces ("" ++ "/" ++ "/".intercalate solid) = [""] ++ solid := by
      rw [pieces_append, pieces_intercalate ended.ne_nil inside]
      rfl
    exact pieces_join_of_ended spelled ended

/-- The empty piece between a point and its slash is kept with a name behind it. -/
theorem exists_kept {solid voids : List String} (shown : "" :: inner = solid ++ voids) (ended : Ended solid) :
    ∃ kept, solid = "" :: kept ∧ inner = kept ++ voids ∧ Ended kept := by
  obtain ⟨front, last, rfl, filled⟩ := ended
  cases front with
  | nil =>
    -- The empty piece is void itself.
    obtain ⟨rfl, -⟩ := List.cons.inj shown
    exact absurd filled (by decide)
  | cons first front =>
    obtain ⟨rfl, same⟩ := List.cons.inj shown
    exact ⟨front ++ [last], rfl, same, front, last, rfl, filled⟩

/-- What is above a path that begins with the current directory. -/
theorem above_of_point (names : Names name) (shape : Shape.ofPath path = ⟨".", ("" :: (inner ++ [name])).reverse⟩)
    (relative : isAbsolute path = false) (plain : ∀ piece ∈ inner, '/' ∉ piece.toList) :
    ∃ parent solid voids, "." :: inner = solid ++ voids ∧ Above path parent solid voids := by
  -- An empty piece stands for the slash behind the point, and it is void as well.
  obtain ⟨solid, voids, shown, void, left, kind⟩ := exists_voids ("" :: inner)
  have parent : parent? path = some (Shape.path ⟨".", solid.reverse⟩) := by
    rw [parent?, shape, ← List.cons_append, Shape.parent?_of_names names, left]
    rfl
  rcases kind with rfl | ended
  · -- Nothing but void pieces is between the point and the name.
    have point : Shape.path ⟨".", [].reverse⟩ = "." := by simp [Shape.path]
    rw [point] at parent
    refine ⟨".", ["."], inner, rfl, parent, ?_, by rw [relative]; decide, ?_⟩
    · intro piece member
      rw [List.nil_append] at shown
      exact void piece (shown ▸ List.mem_cons_of_mem _ member)
    · intro other relative
      have here : join "." other = "." ++ "/" ++ other := by simp [join, relative]
      rw [here, pieces_append]
      rfl
  · obtain ⟨kept, rfl, rfl, ended⟩ := exists_kept shown ended
    have text : Shape.path ⟨".", ("" :: kept).reverse⟩ = "." ++ "/" ++ "/".intercalate kept := by
      obtain ⟨first, more, rfl⟩ := List.exists_cons_of_ne_nil ended.ne_nil
      rw [Shape.path, List.reverse_reverse, String.intercalate_cons_cons, String.empty_append, String.append_assoc]
    have begins : isAbsolute ("." ++ "/" ++ "/".intercalate kept) = isAbsolute path := by
      rw [relative]
      simp [isAbsolute]
    have inside : ∀ piece ∈ kept, '/' ∉ piece.toList := fun piece member =>
      plain piece (List.mem_append_left _ member)
    have spelled : pieces ("." ++ "/" ++ "/".intercalate kept) = ["."] ++ kept := by
      rw [pieces_append, pieces_intercalate ended.ne_nil inside]
      rfl
    rw [text] at parent
    exact ⟨_, "." :: kept, voids, rfl, parent, void, begins, pieces_join_of_ended spelled ended⟩

/-- What is above a path that begins with its first piece. -/
theorem above_of_piece (names : Names name) (shape : Shape.ofPath path = ⟨"", (inner ++ [name]).reverse⟩)
    (whole : pieces path = inner ++ [name]) (relative : isAbsolute path = false)
    (plain : ∀ piece ∈ inner, '/' ∉ piece.toList) :
    ∃ parent solid voids, inner = solid ++ voids ∧ Above path parent solid voids := by
  obtain ⟨solid, voids, rfl, void, left, kind⟩ := exists_voids inner
  have parent : parent? path = some ("/".intercalate solid) := by
    rw [parent?, shape, Shape.parent?_of_names names, left]
    simp [Shape.path]
  rcases kind with rfl | ended
  · -- Nothing but void pieces is in front of the name.
    refine ⟨_, [], voids, rfl, parent, void, by rw [relative]; decide, ?_⟩
    intro other relative
    simp [join, relative]
  · have inside : ∀ piece ∈ solid, '/' ∉ piece.toList := fun piece member =>
      plain piece (List.mem_append_left _ member)
    have spelled := pieces_intercalate ended.ne_nil inside
    have join : ∀ other, isAbsolute other = false →
        pieces (join ("/".intercalate solid) other) = [] ++ solid ++ pieces other :=
      pieces_join_of_ended spelled ended
    refine ⟨_, solid, voids, rfl, parent, void, ?_, join⟩
    -- A slash at the beginning of the base would be one at the beginning of the path.
    rw [relative, ← Bool.not_eq_true]
    intro absolute
    obtain ⟨rest, more, first⟩ := isAbsolute_iff.1 absolute
    rw [spelled] at first
    rw [← Bool.not_eq_true] at relative
    refine relative (isAbsolute_iff.2 ⟨rest ++ voids ++ [name], by simp, ?_⟩)
    rw [whole, first]
    simp

end Shapes

/-- What is in front of a name when another piece comes first. -/
theorem exists_inner {first name : String} {front rest : List String} (whole : front ++ [name] = first :: rest)
    (other : name ≠ first) : ∃ inner, front = first :: inner ∧ rest = inner ++ [name] := by
  -- The first piece is in front, since it is not the name.
  cases front with
  | nil => exact absurd (List.cons.inj whole).1 other
  | cons piece inner =>
    obtain ⟨rfl, same⟩ := List.cons.inj whole
    exact ⟨inner, rfl, same.symm⟩

/-- A directory is above a path that ends in a name, and the pieces in front of the name lead there. -/
theorem exists_above {path name : String} {front : List String} (whole : pieces path = front ++ [name])
    (names : Names name) : ∃ parent solid voids, front = solid ++ voids ∧ Above path parent solid voids := by
  have plain : ∀ piece ∈ front, '/' ∉ piece.toList := fun piece member =>
    not_mem_of_mem_pieces (whole ▸ List.mem_append_left _ member)
  have solid := names.solid
  -- The beginning of the path decides which shape it has.
  rcases ofPath_cases path with ⟨rest, shape, spelled, absolute⟩ | ⟨-, point⟩ | ⟨rest, shape, spelled, relative⟩ |
    ⟨shape, relative⟩
  · obtain ⟨inner, rfl, rfl⟩ := exists_inner (whole.symm.trans spelled) names.ne_empty
    exact above_of_root names shape absolute (List.forall_mem_cons.1 plain).2
  · -- A mere point is no name.
    have lone : front ++ [name] = [] ++ ["."] := whole.symm.trans point
    obtain ⟨-, rfl⟩ := List.append_singleton_inj.1 lone
    exact absurd solid (by decide)
  · have other : name ≠ "." := by
      rintro rfl
      exact absurd solid (by decide)
    obtain ⟨inner, rfl, rfl⟩ := exists_inner (whole.symm.trans spelled) other
    exact above_of_point names shape relative (List.forall_mem_cons.1 plain).2
  · exact above_of_piece names (whole ▸ shape) whole relative plain

end ConfigStore.Path
