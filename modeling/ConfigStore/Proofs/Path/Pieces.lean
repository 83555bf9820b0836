import Mathlib.Data.List.TakeWhile
import ConfigStore.Files.Resolve
import ConfigStore.Files.Canonical
import ConfigStore.Proofs.Text.Separate

/-! The pieces of paths that are put together are the pieces of their parts, but for the empty piece behind a last
slash. -/

namespace ConfigStore

namespace Path

/-- A piece that names something in a directory. -/
structure Names (piece : String) : Prop where
  /-- The piece is neither empty nor a point. -/
  solid : isVoid piece = false
  /-- The piece does not lead upwards. -/
  down : piece ≠ ".."

/-- A piece that names something is not void. -/
theorem Names.not_isVoid {piece : String} (names : Names piece) : ¬isVoid piece = true := by
  rw [names.solid]
  decide

/-- A piece that is not void and does not lead upwards names something. -/
theorem Names.of_not_isVoid {piece : String} (solid : ¬isVoid piece = true) (down : piece ≠ "..") : Names piece :=
  ⟨by rwa [Bool.not_eq_true] at solid, down⟩

/-- A piece that names something is not empty. -/
theorem Names.ne_empty {piece : String} (names : Names piece) : piece ≠ "" := by
  intro empty
  have solid := names.solid
  rw [empty] at solid
  exact absurd solid (by decide)

/-- A path has a first piece. -/
theorem pieces_ne_nil (path : String) : pieces path ≠ [] := by
  rw [pieces, Ne, List.map_eq_nil_iff]
  exact separate_ne_nil '/' path.toList

/-- No piece holds a slash. -/
theorem not_mem_of_mem_pieces {path piece : String} (member : piece ∈ pieces path) : '/' ∉ piece.toList := by
  -- Pieces are what slashes separate.
  obtain ⟨chars, there, rfl⟩ := List.mem_map.1 member
  rw [String.toList_ofList]
  exact not_mem_of_mem_separate there

/-- A path begins at the root when it has an empty first piece with others behind it. -/
theorem isAbsolute_iff {path : String} : isAbsolute path = true ↔ ∃ rest, rest ≠ [] ∧ pieces path = "" :: rest := by
  rw [isAbsolute, pieces, beq_iff_eq]
  cases path.toList with
  | nil => simp
  | cons first text =>
    rw [List.head?_cons, Option.some.injEq]
    constructor
    · rintro rfl
      rw [separate_cons_mark]
      exact ⟨_, mt List.map_eq_nil_iff.1 (separate_ne_nil '/' text), rfl⟩
    · rintro ⟨rest, more, spelled⟩
      -- Any other character would be in the first piece.
      apply Decidable.byContradiction
      intro other
      obtain ⟨piece, pieces, behind⟩ := List.exists_cons_of_ne_nil (separate_ne_nil '/' text)
      rw [separate_cons_other other behind, List.map_cons] at spelled
      have empty := congrArg String.toList (List.cons.inj spelled).1
      simp at empty

/-- A path without a slash is relative. -/
theorem isAbsolute_of_not_mem {path : String} (absent : '/' ∉ path.toList) : isAbsolute path = false := by
  -- An absolute path begins with a slash.
  rw [isAbsolute, beq_eq_false_iff_ne]
  intro begins
  exact absent (List.mem_of_mem_head? begins)

/-- Pieces on both sides of a slash stand side by side. -/
theorem pieces_append (front back : String) : pieces (front ++ "/" ++ back) = pieces front ++ pieces back := by
  -- The slash in between separates the two.
  have text : (front ++ "/" ++ back).toList = front.toList ++ '/' :: back.toList := by simp
  rw [pieces, text, separate_append_mark, List.map_append]
  rfl

/-- A path without a slash is one piece. -/
theorem pieces_of_not_mem {path : String} (absent : '/' ∉ path.toList) : pieces path = [path] := by
  rw [pieces, separate_of_not_mem absent, List.map_singleton, String.ofList_toList]

/-- Pieces that are put together with slashes between them are the pieces again. -/
theorem pieces_intercalate {names : List String} (filled : names ≠ []) (plain : ∀ name ∈ names, '/' ∉ name.toList) :
    pieces ("/".intercalate names) = names := by
  -- Each slash between two names separates the first from the others.
  induction names with
  | nil => exact absurd rfl filled
  | cons name rest ih =>
    obtain ⟨first, others⟩ := List.forall_mem_cons.1 plain
    cases rest with
    | nil =>
      rw [String.intercalate_singleton]
      exact pieces_of_not_mem first
    | cons second more =>
      rw [String.intercalate_cons_cons, pieces_append, pieces_of_not_mem first, ih (List.cons_ne_nil _ _) others]
      rfl

/-- A path that ends in a slash has an empty last piece. -/
theorem pieces_of_closed {path : String} (closed : path.toList.getLast? = some '/') :
    ∃ front : String, path = front ++ "/" ∧ pieces path = pieces front ++ [""] := by
  -- Behind the last slash there is nothing, which is the empty piece.
  obtain ⟨chars, spelled⟩ := List.getLast?_eq_some_iff.1 closed
  refine ⟨String.ofList chars, ?_, ?_⟩
  · rw [← String.toList_inj, spelled]
    simp
  · rw [pieces, spelled, separate_append_mark, List.map_append, pieces, String.toList_ofList]
    rfl

/-- The pieces of a relative path come behind those of its base. -/
theorem pieces_join (base : String) {path : String} (relative : isAbsolute path = false) :
    ∃ front, pieces (join base path) = front ++ pieces path ∧
      (base = "" ∧ front = [] ∨ pieces base = front ∨ pieces base = front ++ [""]) := by
  -- A slash is added behind the base unless the base is empty or has one at its end.
  rw [join, if_neg (by simp [relative])]
  by_cases empty : base = ""
  · subst empty
    exact ⟨[], by simp, .inl ⟨rfl, rfl⟩⟩
  · by_cases closed : base.toList.getLast? = some '/'
    · -- The slash is there already.
      obtain ⟨front, rfl, pieces_⟩ := pieces_of_closed closed
      refine ⟨pieces front, ?_, .inr (.inr pieces_)⟩
      rw [if_pos (by simp), pieces_append]
    · refine ⟨pieces base, ?_, .inr (.inl rfl)⟩
      rw [if_neg (by simp [empty, closed]), pieces_append]

/-- What is in front of a name stays in front of it when something is put behind. -/
theorem pieces_join_of_name {base path name : String} {front behind : List String} (relative : isAbsolute path = false)
    (whole : pieces base = front ++ name :: behind) (filled : name ≠ "") :
    ∃ more, pieces (join base path) = front ++ name :: more := by
  -- At most a slash at the end goes.
  have closed : ∀ lead, front ++ name :: behind = lead ++ [""] → ∃ more, lead ++ pieces path = front ++ name :: more := by
    intro lead same
    rcases List.eq_nil_or_concat behind with rfl | ⟨inner, last, rfl⟩
    · exact absurd (List.append_singleton_inj.1 same).2 filled
    · rw [List.concat_eq_append, ← List.cons_append, ← List.append_assoc] at same
      obtain ⟨rfl, -⟩ := List.append_singleton_inj.1 same
      exact ⟨inner ++ pieces path, by simp⟩
  obtain ⟨lead, joined, ⟨rfl, rfl⟩ | same | slash⟩ := pieces_join base relative
  · obtain ⟨more, shown⟩ := closed [] (whole.symm.trans rfl)
    exact ⟨more, joined.trans shown⟩
  · refine ⟨behind ++ pieces path, ?_⟩
    rw [joined, ← same, whole, List.append_assoc, List.cons_append]
  · obtain ⟨more, shown⟩ := closed lead (whole.symm.trans slash)
    exact ⟨more, joined.trans shown⟩

/-- Behind a base that does not end in a slash, all of its pieces stay. -/
theorem pieces_join_of_open {base path last : String} {front : List String} (relative : isAbsolute path = false)
    (whole : pieces base = front ++ [last]) (filled : last ≠ "") :
    pieces (join base path) = pieces base ++ pieces path := by
  obtain ⟨other, joined, ⟨rfl, -⟩ | same | closed⟩ := pieces_join base relative
  · -- The empty base has an empty last piece.
    have lone : [] ++ [""] = front ++ [last] := whole
    exact absurd (List.append_singleton_inj.1 lone).2.symm filled
  · rw [joined, same]
  · rw [closed] at whole
    exact absurd (List.append_singleton_inj.1 whole).2.symm filled

/-- A relative path behind a base begins with what the base does, if the base has another piece behind. -/
theorem exists_ahead {base path : String} {front back : List String} (spelled : pieces base = front ++ back)
    (more : back ≠ []) (relative : isAbsolute path = false) :
    ∃ behind, pieces (join base path) = front ++ behind ++ pieces path := by
  obtain ⟨inner, last, rfl⟩ := (List.eq_nil_or_concat back).resolve_left more
  rw [List.concat_eq_append, ← List.append_assoc] at spelled
  obtain ⟨whole, joined, ⟨rfl, rfl⟩ | same | closed⟩ := pieces_join base relative
  · have lone : front ++ inner ++ [last] = [] ++ [""] := spelled.symm
    obtain ⟨bare, -⟩ := List.append_singleton_inj.1 lone
    obtain ⟨rfl, rfl⟩ := List.append_eq_nil_iff.1 bare
    exact ⟨[], joined⟩
  · exact ⟨inner ++ [last], by rw [joined, ← same, spelled, List.append_assoc front]⟩
  · -- The slash at the end of the base is the last piece.
    obtain ⟨rfl, -⟩ := List.append_singleton_inj.1 (spelled.symm.trans closed)
    exact ⟨inner, joined⟩

/-- A relative path begins where its base does. -/
theorem isAbsolute_join {base path : String} (relative : isAbsolute path = false) :
    isAbsolute (join base path) = isAbsolute base := by
  -- The base comes first, unless it is empty and nothing is added behind it.
  rw [join, if_neg (by simp [relative])]
  by_cases empty : base = ""
  · subst empty
    rw [if_pos (by simp), String.empty_append, relative]
    decide
  · -- The first character is that of the base.
    obtain ⟨first, rest, text⟩ := List.exists_cons_of_ne_nil (mt String.toList_eq_nil_iff.1 empty)
    split <;> simp [isAbsolute, text]

namespace Shape

/-- A path is that of its shape. -/
theorem path_ofPath (path : String) : (ofPath path).path = path := by
  -- The pieces with slashes between them are the text behind the beginning.
  have text : ∀ chars : List Char,
      ("/".intercalate ((separate '/' chars).map String.ofList)).toList = chars := by
    intro chars
    rw [String.toList_intercalate, List.map_map]
    have same : String.toList ∘ String.ofList = id := funext fun chars => String.toList_ofList
    rw [same, List.map_id]
    exact intercalate_separate '/' chars
  rw [← String.toList_inj]
  unfold ofPath
  split
  · next rest spelled => simp [Shape.path, text, spelled]
  · next spelled => simp [Shape.path, spelled]
  · next rest spelled =>
    obtain ⟨piece, pieces, behind⟩ := List.exists_cons_of_ne_nil (separate_ne_nil '/' rest)
    have more := text rest
    rw [behind] at more
    simp only [Shape.path, List.reverse_reverse, behind, List.map_cons, String.intercalate_cons_cons,
      String.toList_append, spelled]
    rw [List.map_cons] at more
    rw [more]
    rfl
  · simp [Shape.path, text]

end Shape

end Path

/-- The pieces of a place's path are its names, behind the empty piece in front of the first slash. -/
theorem pieces_placePath {place : Location} (below : place ≠ []) (plain : ∀ name ∈ place, '/' ∉ name.toList) :
    Path.pieces (placePath place) = "" :: place := by
  -- The slash of the root comes first, with nothing in front of it.
  have text : placePath place = "" ++ "/" ++ "/".intercalate place := by simp [placePath]
  rw [text, Path.pieces_append, Path.pieces_intercalate below plain]
  rfl

/-- The path of a place begins at the root. -/
theorem isAbsolute_placePath (place : Location) : Path.isAbsolute (placePath place) = true := by
  simp [placePath, Path.isAbsolute]

/-- A relative path behind the path of a place begins with the names of the place. -/
theorem pieces_join_placePath {place : Location} {path : String} (plain : ∀ name ∈ place, '/' ∉ name.toList)
    (solid : ∀ name ∈ place, name ≠ "")
    (relative : Path.isAbsolute path = false) :
    Path.pieces (Path.join (placePath place) path) = "" :: place ++ Path.pieces path := by
  rcases List.eq_nil_or_concat place with rfl | ⟨inner, last, rfl⟩
  · -- The slash of the root is at the end already.
    have root : Path.join (placePath []) path = "" ++ "/" ++ path := by simp [placePath, Path.join, relative]
    rw [root, Path.pieces_append]
    rfl
  · rw [List.concat_eq_append] at plain solid ⊢
    have spelled := pieces_placePath (by simp) plain
    have whole : Path.pieces (placePath (inner ++ [last])) = ("" :: inner) ++ [last] := by
      rw [spelled, List.cons_append]
    rw [Path.pieces_join_of_open relative whole (solid last (List.mem_append_right _ List.mem_cons_self)), spelled]

/-- Only slashes at its end are left out of a path that is opened. -/
theorem openPieces_append (path : String) :
    ∃ empties, Path.pieces path = FileSystem.openPieces path ++ empties ∧ ∀ piece ∈ empties, piece = "" := by
  -- What was left out is what was dropped from the end.
  refine ⟨((Path.pieces path).reverse.takeWhile String.isEmpty).reverse, ?_, ?_⟩
  · rw [FileSystem.openPieces, ← List.reverse_append, List.takeWhile_append_dropWhile, List.reverse_reverse]
  · intro piece member
    exact String.isEmpty_iff.1 (List.mem_takeWhile_imp (List.mem_reverse.1 member))

end ConfigStore
