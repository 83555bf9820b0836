import ConfigStore.Proofs.Text.Line

/-! A text is cut by going back from the limit to where a character begins. Going back finds such a place before it passes
the start, and what is in front of the place is the longest start of the text that fits. -/

namespace ConfigStore

open Utf8

variable {limit position last : Nat} {char : Char} {front rest text : List Char} {bytes : List UInt8}

/-- The first byte of a character begins it, and the others continue it. -/
theorem exists_encodeChar (char : Char) :
    ∃ first more, String.utf8EncodeChar char = first :: more ∧ continues first = false ∧
      ∀ byte ∈ more, continues byte = true := by
  -- The first byte is below 128 or from 192 on, and every other is six bits on top of 128.
  have valid := toNat_valid char
  have value : char.val.toNat = char.toNat := rfl
  have begins : ∀ value, value < 128 ∨ 192 ≤ value → value < 256 → continues (UInt8.ofNat value) = false := by
    intro value outside small
    rw [continues, toNat_ofNat small]
    simp
    omega
  have continuing : ∀ bits, continues (UInt8.ofNat (bits % 64 + 128)) = true := by
    intro bits
    rw [continues, toNat_ofNat (by omega)]
    simp
    omega
  unfold String.utf8EncodeChar
  simp only [value]
  generalize char.toNat = code at *
  split
  · exact ⟨_, _, rfl, begins _ (by omega) (by omega), by simp⟩
  · split
    · exact ⟨_, _, rfl, begins _ (by omega) (by omega), by simp only [List.forall_mem_cons, continuing]; simp⟩
    · split
      · exact ⟨_, _, rfl, begins _ (by omega) (by omega), by simp only [List.forall_mem_cons, continuing]; simp⟩
      · exact ⟨_, _, rfl, begins _ (by omega) (by omega), by simp only [List.forall_mem_cons, continuing]; simp⟩

/-- Inside the first character no position is between characters. -/
theorem isBoundary_inside (behind : 0 < position) (inside : position < char.utf8Size) :
    isBoundary (encodeChars (char :: rest)) position = false := by
  -- The byte at the position is one of those that continue the character.
  obtain ⟨first, more, bytes, -, continuing⟩ := exists_encodeChar char
  have size := String.length_utf8EncodeChar char
  rw [bytes, List.length_cons] at size
  obtain ⟨before, rfl⟩ := Nat.exists_eq_succ_of_ne_zero (by omega : position ≠ 0)
  have within : before < more.length := by omega
  have there : (encodeChars (char :: rest))[before + 1]? = some more[before] := by
    rw [encodeChars_cons, bytes, List.cons_append, List.getElem?_cons_succ, List.getElem?_append_left within,
      List.getElem?_eq_getElem within]
  simp only [isBoundary, there]
  simp [continuing]

/-- Behind the first character a position is between characters just if it is so in the rest. -/
theorem isBoundary_behind (char : Char) (rest : List Char) (position : Nat) :
    isBoundary (encodeChars (char :: rest)) (char.utf8Size + position) = isBoundary (encodeChars rest) position := by
  have sized := char.utf8Size_pos
  have size := String.length_utf8EncodeChar char
  have there : (encodeChars (char :: rest))[char.utf8Size + position]? = (encodeChars rest)[position]? := by
    rw [encodeChars_cons, List.getElem?_append_right (by omega), size, Nat.add_sub_cancel_left]
  have begins : (char.utf8Size + position == 0) = false := by
    rw [beq_eq_false_iff_ne]
    omega
  have ends : (char.utf8Size + position == (encodeChars (char :: rest)).length) =
      (position == (encodeChars rest).length) := by
    rw [Bool.eq_iff_iff, beq_iff_eq, beq_iff_eq, encodeChars_cons, List.length_append, size]
    omega
  simp only [isBoundary, there, begins, ends, Bool.false_or]
  -- Right behind the character the rest begins with a character, or is at its end.
  cases position with
  | succ => rfl
  | zero =>
    cases rest with
    | nil => rfl
    | cons next others =>
      obtain ⟨first, more, bytes, begins, -⟩ := exists_encodeChar next
      simp [bytes, begins]

/-- A position is between characters just if a start of the text has so many bytes. -/
theorem isBoundary_iff (text : List Char) (position : Nat) :
    isBoundary (encodeChars text) position = true ↔
      ∃ front, front <+: text ∧ (encodeChars front).length = position := by
  -- The first character is in front of the position, or the position is in it, or it is the start.
  induction text generalizing position with
  | nil =>
    cases position with
    | zero => exact iff_of_true rfl ⟨[], List.nil_prefix, rfl⟩
    | succ position =>
      refine iff_of_false (by simp [isBoundary]) ?_
      rintro ⟨front, start, size⟩
      rw [List.prefix_nil.1 start] at size
      cases size
  | cons char rest ih =>
    have width : ∀ front, (encodeChars (char :: front)).length = char.utf8Size + (encodeChars front).length := by
      intro front
      rw [encodeChars_cons, List.length_append, String.length_utf8EncodeChar]
    by_cases first : position < char.utf8Size
    · rcases Nat.eq_zero_or_pos position with rfl | positive
      · exact iff_of_true rfl ⟨[], List.nil_prefix, rfl⟩
      · rw [isBoundary_inside positive first]
        refine iff_of_false (by simp) ?_
        rintro ⟨front, start, size⟩
        cases front with
        | nil => simp at size; omega
        | cons other front =>
          obtain ⟨rfl, -⟩ := List.cons_prefix_cons.1 start
          rw [width] at size
          omega
    · obtain ⟨behind, rfl⟩ := Nat.exists_eq_add_of_le (Nat.le_of_not_lt first)
      rw [isBoundary_behind, ih]
      constructor
      · rintro ⟨front, start, size⟩
        exact ⟨char :: front, List.cons_prefix_cons.2 ⟨rfl, start⟩, by rw [width, size]⟩
      · rintro ⟨front, start, size⟩
        cases front with
        | nil =>
          have sized := char.utf8Size_pos
          simp at size
          omega
        | cons other front =>
          obtain ⟨rfl, more⟩ := List.cons_prefix_cons.1 start
          rw [width] at size
          exact ⟨front, more, by omega⟩

/-- Going back stops at the first position between characters that it comes to. -/
theorem boundaryBefore?_eq (there : isBoundary bytes last = true) (within : last ≤ limit)
    (past : ∀ position, last < position → position ≤ limit → isBoundary bytes position = false) :
    boundaryBefore? bytes limit = some last := by
  -- Every position behind the last one is passed.
  induction limit with
  | zero =>
    obtain rfl : last = 0 := by omega
    rw [boundaryBefore?, if_pos there]
  | succ limit ih =>
    by_cases here : last = limit + 1
    · subst here
      rw [boundaryBefore?, if_pos there]
    · have other := past (limit + 1) (by omega) (Nat.le_refl _)
      rw [boundaryBefore?, if_neg (by rw [other]; decide)]
      exact ih (by omega) fun position behind inside => past position behind (by omega)

/-- Every start of a text that fits is in front of the cut. -/
theorem prefix_takeBytes (start : front <+: text) (fits : (encodeChars front).length ≤ limit) :
    front <+: takeBytes limit text := by
  -- What fits of the text is all of the start and more.
  induction front generalizing text limit with
  | nil => exact List.nil_prefix
  | cons char front ih =>
    obtain ⟨rest, rfl⟩ := start
    rw [encodeChars_cons, List.length_append, String.length_utf8EncodeChar] at fits
    rw [List.cons_append, takeBytes, if_pos (by omega)]
    exact List.cons_prefix_cons.2 ⟨rfl, ih (List.prefix_append ..) (by omega)⟩

/-- A cut through a text drops less than one more character, which is four bytes at most. -/
theorem lt_length_takeBytes (long : limit < (encodeChars text).length) :
    limit < (encodeChars (takeBytes limit text)).length + 4 := by
  -- The character that is dropped first has four bytes at most.
  induction text generalizing limit with
  | nil => simp at long
  | cons char rest ih =>
    rw [encodeChars_cons, List.length_append, String.length_utf8EncodeChar] at long
    rw [takeBytes]
    split
    · next fits =>
      have more := ih (by omega : limit - char.utf8Size < (encodeChars rest).length)
      rw [encodeChars_cons, List.length_append, String.length_utf8EncodeChar]
      omega
    · have size := char.utf8Size_le_four
      omega

/-- As many bytes as a start of a text has are that start. -/
theorem sliceTo?_append (front rest : List Char) : sliceTo? (encodeChars front).length (front ++ rest) = some front := by
  -- Each character of the start takes as many bytes as it has.
  induction front with
  | nil => simp [sliceTo?]
  | cons char front ih =>
    have sized := char.utf8Size_pos
    obtain ⟨before, size⟩ : ∃ before, (encodeChars (char :: front)).length = before + 1 :=
      Nat.exists_eq_succ_of_ne_zero (by simp; omega)
    have width : before + 1 = char.utf8Size + (encodeChars front).length := by
      rw [← size, encodeChars_cons, List.length_append, String.length_utf8EncodeChar]
    rw [size, List.cons_append, sliceTo?, if_pos (by omega), width, Nat.add_sub_cancel_left, ih, Option.map_some]

/-- Going back from any limit ends where the longest start that fits does. -/
theorem boundaryBefore?_encodeChars (limit : Nat) (text : List Char) :
    boundaryBefore? (encodeChars text) limit = some (encodeChars (takeBytes limit text)).length := by
  refine boundaryBefore?_eq ((isBoundary_iff _ _).2 ⟨_, takeBytes_start limit text, rfl⟩) (length_takeBytes limit text)
    fun position behind within => ?_
  -- A later position between characters would end a longer start that fits.
  rw [Bool.eq_false_iff]
  intro there
  obtain ⟨front, start, rfl⟩ := (isBoundary_iff text position).1 there
  obtain ⟨more, same⟩ := prefix_takeBytes start within
  rw [← same, encodeChars_append, List.length_append] at behind
  omega

/-- So a cut leaves that start. -/
theorem cutLine?_eq_takeBytes (limit : Nat) (text : List Char) : cutLine? limit text = some (takeBytes limit text) := by
  -- A text that fits is whole, and any other is cut where the longest start ends.
  rw [cutLine?, encode_ofList]
  split
  · next fits => rw [takeBytes_of_fits fits]
  · obtain ⟨rest, whole⟩ := takeBytes_start limit text
    have slice := sliceTo?_append (takeBytes limit text) rest
    rw [whole] at slice
    rw [boundaryBefore?_encodeChars, Option.bind_some, slice]

/-- Every line can be cut. -/
theorem filterMap_cutLine? (limit : Nat) (lines : List (List Char)) :
    lines.filterMap (cutLine? limit) = lines.map (takeBytes limit) := by
  have all : cutLine? limit = some ∘ takeBytes limit := funext (cutLine?_eq_takeBytes limit)
  rw [all, List.filterMap_eq_map]

/-- Cutting a text never fails, never splits a character and never cuts too much. Whatever the text and the limit, going
back from the limit finds a position between characters before it passes the start. What the cut leaves is a start of
the text that fits, every other start that fits is a start of it, and of a text that is too long it leaves all but three
of the bytes that would fit, or more. -/
theorem cutLine?_takes_longest (limit : Nat) (text : List Char) :
    (∃ position, boundaryBefore? (encode (String.ofList text)) limit = some position) ∧
    ∃ cut, cutLine? limit text = some cut ∧ cut <+: text ∧ (encodeChars cut).length ≤ limit ∧
      (∀ front, front <+: text → (encodeChars front).length ≤ limit → front <+: cut) ∧
      (limit < (encodeChars text).length → limit < (encodeChars cut).length + 4) := by
  rw [encode_ofList]
  exact ⟨⟨_, boundaryBefore?_encodeChars limit text⟩, _, cutLine?_eq_takeBytes limit text, takeBytes_start limit text,
    length_takeBytes limit text, fun _ => prefix_takeBytes, lt_length_takeBytes⟩

/-- The limit is inside a character of four bytes, three behind its start. -/
theorem cutLine?_takes_longest_inside :
    boundaryBefore? (encode "a😀b") 4 = some 1 ∧ cutLine? 4 "a😀b".toList = some ['a'] ∧
      ['a'] <+: "a😀b".toList ∧ 4 < (encodeChars "a😀b".toList).length ∧ 4 < (encodeChars ['a']).length + 4 := by
  obtain ⟨-, cut, same, start, -, -, more⟩ := cutLine?_takes_longest 4 "a😀b".toList
  have taken : cutLine? 4 "a😀b".toList = some ['a'] := by decide +kernel
  obtain rfl : cut = ['a'] := Option.some.inj (same.symm.trans taken)
  have long : 4 < (encodeChars "a😀b".toList).length := by decide +kernel
  exact ⟨by decide +kernel, taken, start, long, more long⟩

end ConfigStore
