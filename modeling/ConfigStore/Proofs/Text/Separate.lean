import ConfigStore.Text.Line

/-! Separating a text at its marks loses nothing, and no piece holds a mark. -/

namespace ConfigStore

variable {α : Type} [BEq α]

/-- A text without items is one empty piece. -/
@[simp] theorem separate_nil (mark : α) : separate mark [] = [[]] := rfl

/-- There is always a first piece. -/
theorem separate_ne_nil (mark : α) (text : List α) : separate mark text ≠ [] := by
  -- The last item to be folded in either adds a piece or extends the first one.
  cases text with
  | nil => simp
  | cons item rest =>
    simp only [separate, List.foldr_cons]
    split
    · simp
    · split <;> simp

variable [LawfulBEq α]

/-- A mark closes the empty piece in front of it. -/
@[simp] theorem separate_cons_mark (mark : α) (rest : List α) :
    separate mark (mark :: rest) = [] :: separate mark rest := by
  simp [separate]

/-- An item that is no mark begins the first piece. -/
theorem separate_cons_other {mark item : α} (other : item ≠ mark) {rest piece : List α}
    {pieces : List (List α)} (behind : separate mark rest = piece :: pieces) :
    separate mark (item :: rest) = (item :: piece) :: pieces := by
  simp only [separate, List.foldr_cons] at behind ⊢
  rw [if_neg (by simpa using other), behind]

/-- Texts on both sides of a mark are separated on their own. -/
theorem separate_append_mark (mark : α) (front back : List α) :
    separate mark (front ++ mark :: back) = separate mark front ++ separate mark back := by
  -- Every item of the front does the same to its first piece, whatever comes behind.
  induction front with
  | nil => simp
  | cons item rest ih =>
    by_cases marked : item = mark
    · subst marked
      simp [ih]
    · obtain ⟨piece, pieces, behind⟩ := List.exists_cons_of_ne_nil (separate_ne_nil mark rest)
      have whole : separate mark (rest ++ mark :: back) = piece :: (pieces ++ separate mark back) := by
        rw [ih, behind, List.cons_append]
      rw [List.cons_append, separate_cons_other marked whole, separate_cons_other marked behind,
        List.cons_append]

/-- Items that are no marks stand in front of the first piece. -/
theorem separate_append_other {mark : α} {front rest piece : List α} {pieces : List (List α)}
    (absent : mark ∉ front) (behind : separate mark rest = piece :: pieces) :
    separate mark (front ++ rest) = (front ++ piece) :: pieces := by
  -- The items go in front of the first piece one by one.
  induction front with
  | nil => exact behind
  | cons item front ih =>
    simp only [List.mem_cons, not_or] at absent
    exact separate_cons_other (Ne.symm absent.1) (ih absent.2)

/-- A text without marks is one piece. -/
theorem separate_of_not_mem {mark : α} {text : List α} (absent : mark ∉ text) :
    separate mark text = [text] := by
  simpa using separate_append_other absent (separate_nil mark)

/-- No piece holds a mark. -/
theorem not_mem_of_mem_separate {mark : α} {text piece : List α} (member : piece ∈ separate mark text) :
    mark ∉ piece := by
  -- Only items that are no marks are ever put into a piece.
  induction text generalizing piece with
  | nil => simp_all
  | cons item rest ih =>
    by_cases marked : item = mark
    · subst marked
      rcases List.mem_cons.1 (separate_cons_mark item rest ▸ member) with empty | later
      · simp [empty]
      · exact ih later
    · obtain ⟨first, pieces, behind⟩ := List.exists_cons_of_ne_nil (separate_ne_nil mark rest)
      rw [separate_cons_other marked behind] at member
      rcases List.mem_cons.1 member with extended | later
      · have start : mark ∉ first := ih (by simp [behind])
        simpa [extended, Ne.symm marked] using start
      · exact ih (by simp [behind, later])

/-- A text that ends at a mark, if it holds anything. -/
def ClosedBy {α : Type} (mark : α) (text : List α) : Prop :=
  text = [] ∨ text.getLast? = some mark

instance {α : Type} [DecidableEq α] (mark : α) (text : List α) : Decidable (ClosedBy mark text) :=
  inferInstanceAs (Decidable (_ ∨ _))

/-- The pieces of a text that is closed stand in front of those of what follows, but for the empty one at its end. -/
theorem ClosedBy.separate_append {mark : α} {front : List α} (closed : ClosedBy mark front) :
    ∃ pieces, separate mark front = pieces ++ [[]] ∧
      ∀ back, separate mark (front ++ back) = pieces ++ separate mark back := by
  rcases closed with rfl | ends
  · exact ⟨[], rfl, fun back => rfl⟩
  · obtain ⟨text, rfl⟩ := List.getLast?_eq_some_iff.1 ends
    exact ⟨separate mark text, separate_append_mark mark text [], fun back => by
      rw [List.append_assoc, List.singleton_append, separate_append_mark]⟩

/-- Pieces that hold no mark are separated again when each is closed by one. -/
theorem separate_flatMap_closed {mark : α} {pieces : List (List α)} (absent : ∀ piece ∈ pieces, mark ∉ piece) :
    separate mark (pieces.flatMap (· ++ [mark])) = pieces ++ [[]] := by
  -- Each mark closes the piece before it, and nothing is behind the last one.
  induction pieces with
  | nil => rfl
  | cons piece rest ih =>
    have here := separate_of_not_mem (absent piece (by simp))
    have behind := ih fun other member => absent other (by simp [member])
    rw [List.flatMap_cons, List.append_assoc, List.singleton_append, separate_append_mark, here, behind]
    rfl

/-- The pieces with marks between them are the text again. -/
theorem intercalate_separate (mark : α) (text : List α) : [mark].intercalate (separate mark text) = text := by
  -- The first piece grows by the items in front of the first mark.
  induction text with
  | nil => rfl
  | cons item rest ih =>
    obtain ⟨piece, pieces, behind⟩ := List.exists_cons_of_ne_nil (separate_ne_nil mark rest)
    rw [behind] at ih
    by_cases marked : item = mark
    · subst marked
      rw [separate_cons_mark, behind, List.intercalate_cons_cons, ih]
      rfl
    · rw [separate_cons_other marked behind]
      cases pieces with
      | nil => simpa using ih
      | cons second others =>
        rw [List.intercalate_cons_cons] at ih ⊢
        simpa using ih

/-- The items in front of the first mark. -/
theorem takeWhile_first {mark : α} {front : List α} (absent : mark ∉ front) (back : List α) :
    (front ++ mark :: back).takeWhile (· != mark) = front := by
  -- All items in front are taken, and the mark is not.
  rw [List.takeWhile_append_of_pos]
  · simp
  · intro item member
    simpa using fun same : item = mark => absent (same ▸ member)

/-- The items from the first mark on. -/
theorem dropWhile_first {mark : α} {front : List α} (absent : mark ∉ front) (back : List α) :
    (front ++ mark :: back).dropWhile (· != mark) = mark :: back := by
  -- All items in front are dropped, and the mark is not.
  rw [List.dropWhile_append_of_pos]
  · simp
  · intro item member
    simpa using fun same : item = mark => absent (same ▸ member)

/-- The lines of bytes are pieces between newlines. -/
theorem mem_separate_of_mem_byteLines {bytes line : List UInt8} (member : line ∈ byteLines bytes) :
    line ∈ separate newlineByte bytes := by
  -- A last line without anything on it is left out.
  rw [byteLines] at member
  split at member
  · exact (List.dropLast_sublist _).subset member
  · exact member

/-- No line of bytes holds a newline. -/
theorem not_mem_of_mem_byteLines {bytes line : List UInt8} (member : line ∈ byteLines bytes) :
    newlineByte ∉ line :=
  not_mem_of_mem_separate (mem_separate_of_mem_byteLines member)

/-- Without its last byte line, a text that ends in a newline leaves nothing over. -/
theorem byteLines_of_closed {bytes : List UInt8} {lines : List (List UInt8)}
    (closed : separate newlineByte bytes = lines ++ [[]]) : byteLines bytes = lines := by
  simp [byteLines, closed]

/-- Pieces in front of others are lines in front of theirs. -/
theorem byteLines_of_front {bytes back : List UInt8} {lines : List (List UInt8)}
    (shown : separate newlineByte bytes = lines ++ separate newlineByte back) :
    byteLines bytes = lines ++ byteLines back := by
  -- There is always a piece behind, and it is the last one that counts or not.
  obtain ⟨piece, pieces, behind⟩ := List.exists_cons_of_ne_nil (separate_ne_nil newlineByte back)
  simp only [byteLines, shown, behind, List.getLast?_append, List.getLast?_cons, Option.some_or,
    List.dropLast_append_cons]
  split
  · rfl
  · rfl

end ConfigStore
