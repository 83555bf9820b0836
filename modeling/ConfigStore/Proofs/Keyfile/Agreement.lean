import ConfigStore.Proofs.Keyfile.RoundTrip

/-! A text is cut between characters, and its bytes are cut between bytes, with a replacement for what is left of a
character. Both ways the same sections are found, and the same keyfile if no cut goes through a character. -/

namespace ConfigStore

open Utf8

/-- A cut behind so many bytes of a line goes through one of its characters. -/
def CutInside (limit : Nat) (line : List Char) : Prop :=
  ∃ front char back, line = front ++ char :: back ∧ (encodeChars front).length < limit ∧
    limit < (encodeChars (front ++ [char])).length

/-- A cut goes through the first character of a line or through a later one. -/
theorem cutInside_cons_iff {limit : Nat} {char : Char} {rest : List Char} :
    CutInside limit (char :: rest) ↔ (0 < limit ∧ limit < char.utf8Size) ∨
      (char.utf8Size < limit ∧ CutInside (limit - char.utf8Size) rest) := by
  constructor
  · intro found
    obtain ⟨front, inner, back, whole, after, before⟩ := found
    cases front with
    | nil =>
      obtain ⟨rfl, -⟩ := List.cons.inj whole
      left
      simpa using And.intro after before
    | cons first others =>
      obtain ⟨rfl, rfl⟩ := List.cons.inj whole
      simp only [List.cons_append, encodeChars_cons, List.length_append, String.length_utf8EncodeChar] at after before
      right
      exact ⟨by omega, others, inner, back, rfl, by omega, by omega⟩
  · rintro (⟨after, before⟩ | ⟨fits, front, inner, back, rfl, after, before⟩)
    · exact ⟨[], char, rest, rfl, after, by simpa using before⟩
    · refine ⟨char :: front, inner, back, rfl, ?_, ?_⟩
      · rw [encodeChars_cons, List.length_append, String.length_utf8EncodeChar]
        omega
      · rw [List.cons_append, encodeChars_cons, List.length_append, String.length_utf8EncodeChar]
        omega

/-- The two ways of cutting agree on a line unless the cut goes through a character. -/
theorem cutChars_eq_takeBytes_iff {limit : Nat} {line : List Char} :
    cutChars limit line = takeBytes limit line ↔ ¬CutInside limit line := by
  -- The first character fits, and the rest decides, or the cut is in it or in front of it.
  induction line generalizing limit with
  | nil => simp [cutChars, takeBytes, CutInside]
  | cons char rest ih =>
    rw [cutChars, takeBytes, cutInside_cons_iff]
    by_cases fits : char.utf8Size ≤ limit
    · rw [if_pos fits, if_pos fits, List.cons.injEq, eq_self, true_and, ih]
      constructor
      · rintro whole (⟨-, before⟩ | ⟨-, inside⟩)
        · omega
        · exact whole inside
      · intro whole inside
        apply whole
        right
        obtain ⟨front, inner, back, spelled, after, before⟩ := inside
        exact ⟨by omega, front, inner, back, spelled, after, before⟩
    · rw [if_neg fits, if_neg fits]
      by_cases zero : limit = 0
      · rw [if_pos zero]
        simp [zero]
      · rw [if_neg zero]
        simp
        omega

instance (limit : Nat) (line : List Char) : Decidable (CutInside limit line) :=
  decidable_of_iff (¬cutChars limit line = takeBytes limit line) (by rw [cutChars_eq_takeBytes_iff, not_not])

/-- A replacement at the end of a line makes no header of it, and leaves the name of one. -/
theorem name?_append_replacement (line : List Char) :
    (Line.ofChars (line ++ [replacement])).name? = (Line.ofChars line).name? := by
  have named : ∀ told : Line, ∀ name, told.name? = some name ↔ told = .header name := by
    intro told name
    cases told <;> simp [Line.name?]
  apply Option.ext
  intro name
  rw [named, named, Line.ofChars_eq_header_iff, Line.ofChars_eq_header_iff]
  constructor
  · intro found
    obtain ⟨unclosed, rest, whole⟩ := found
    refine ⟨unclosed, ?_⟩
    -- The bracket that closes the name is not the replacement, so that is behind it.
    rcases List.eq_nil_or_concat rest with rfl | ⟨front, last, rfl⟩
    · have final := congrArg List.getLast? whole
      rw [List.getLast?_concat, ← List.cons_append, List.getLast?_concat, Option.some.injEq] at final
      exact absurd final (by decide)
    · have moved : line ++ [replacement] = ('[' :: (name.toList ++ ']' :: front)) ++ [last] := by simpa using whole
      exact ⟨front, (List.append_inj' moved rfl).1⟩
  · rintro ⟨unclosed, rest, rfl⟩
    exact ⟨unclosed, rest ++ [replacement], by simp⟩

/-- Both ways of cutting leave the same name in a header. -/
theorem name?_cutChars (limit : Nat) (line : List Char) :
    (Line.ofChars (cutChars limit line)).name? = (Line.ofChars (takeBytes limit line)).name? := by
  rcases cutChars_eq limit line with same | replaced
  · rw [same]
  · rw [replaced, name?_append_replacement]

/-- The names of sections are the names of headers that differ from every earlier one. -/
theorem outline_sectionNames (lines : List Line) :
    (outline lines).sectionNames = firsts sameName (lines.filterMap Line.name?) := by
  rw [← map_name_blocks, ← map_firsts, Keyfile.sectionNames, outline, List.map_map]
  rfl

/-- Only a text without characters has no bytes. -/
theorem encodeChars_eq_nil_iff {chars : List Char} : encodeChars chars = [] ↔ chars = [] := by
  cases chars with
  | nil => simp
  | cons char rest =>
    have size := char.utf8Size_pos
    rw [← String.length_utf8EncodeChar] at size
    simp [List.ne_nil_of_length_pos size]

/-- A text and its bytes come to the same lines before these are cut, but for an empty one at the end. -/
theorem exists_lines (limit : Nat) (text : String) :
    ∃ lines : List (List Char), (∀ line ∈ lines, line ∈ separate '\n' text.toList) ∧
      readLines limit (encode text) = lines.map (cutChars limit) ∧
      (textLines limit text = lines.map (takeBytes limit) ∨
        textLines limit text = lines.map (takeBytes limit) ++ [[]]) := by
  have pieces : separate newlineByte (encode text) = (separate '\n' text.toList).map encodeChars :=
    separate_encodeChars text.toList
  by_cases closed : (separate '\n' text.toList).getLast? = some []
  · obtain ⟨front, whole⟩ := List.getLast?_eq_some_iff.1 closed
    refine ⟨front, fun line member => by simp [whole, member], ?_, .inr (by simp [textLines, whole, takeBytes])⟩
    rw [readLines, byteLines_of_closed (by rw [pieces, whole, List.map_append]; rfl), List.map_map]
    exact List.map_congr_left fun line _ => decode_take_encodeChars limit line
  · refine ⟨separate '\n' text.toList, fun line member => member, ?_, .inl rfl⟩
    -- The last line holds a character, so it counts.
    have counts : byteLines (encode text) = (separate '\n' text.toList).map encodeChars := by
      simp only [byteLines, pieces, List.getLast?_map]
      rw [if_neg]
      intro empty
      obtain ⟨last, final, bare⟩ := Option.map_eq_some_iff.1 empty
      rw [encodeChars_eq_nil_iff] at bare
      exact closed (bare ▸ final)
    rw [readLines, counts, List.map_map]
    exact List.map_congr_left fun line _ => decode_take_encodeChars limit line

/-- A text and its bytes, in whatever chunks they arrive, are loaded into sections of the same names with a limit that a
buffer may have, and into the same keyfile unless a line is cut inside a character. -/
theorem load_encode_agrees {limit : Nat} (held : limit ≤ Keyfile.greatestCapacity) {text : String}
    {chunks : List (List UInt8)} (written : chunks.flatten = encode text) :
    ∃ store, (Keyfile.load limit ⟨chunks, none⟩).1 = some (.ok store) ∧
      store.sectionNames = (Keyfile.ofText limit text).sectionNames ∧
      ((∀ line ∈ separate '\n' text.toList, ¬CutInside limit line) → store = Keyfile.ofText limit text) := by
  obtain ⟨lines, among, bytes, chars⟩ := exists_lines limit text
  have loaded : (Keyfile.loadBytes limit (encode text)).1 =
      outline ((lines.map (cutChars limit)).map Line.ofChars) := by
    rw [loadBytes_eq_outline, bytes]
  -- The empty line at the end says nothing.
  have told : Keyfile.ofText limit text = outline ((lines.map (takeBytes limit)).map Line.ofChars) := by
    rw [ofText_eq_outline]
    rcases chars with same | closed
    · rw [same]
    · rw [closed, List.map_append]
      exact outline_append_void _
  refine ⟨(Keyfile.loadBytes limit (encode text)).1, by rw [Keyfile.load_eq_loadBytes held, written], ?_, ?_⟩
  · rw [loaded, told, outline_sectionNames, outline_sectionNames]
    simp only [List.filterMap_map, Function.comp_def, name?_cutChars]
  · intro uncut
    rw [loaded, told]
    have same : lines.map (cutChars limit) = lines.map (takeBytes limit) := by
      apply List.map_congr_left
      intro line member
      exact cutChars_eq_takeBytes_iff.2 (uncut line (among line member))
    rw [same]

/-- A cut right behind a character leaves no difference, even where chunks end inside one. -/
theorem load_encode_five :
    [[0x5B, 0xC3], [0xA9, 0x5D, 0x0A, 0x6B, 0x3D, 0xC3], [0xA9, 0x61, 0xE2, 0x82, 0xAC]].flatten =
        encode "[\u00E9]\nk=\u00E9a\u20AC" ∧
      (Keyfile.load 5 ⟨[[0x5B, 0xC3], [0xA9, 0x5D, 0x0A, 0x6B, 0x3D, 0xC3], [0xA9, 0x61, 0xE2, 0x82, 0xAC]], none⟩).1 =
        some (.ok (Keyfile.ofText 5 "[\u00E9]\nk=\u00E9a\u20AC")) := by
  have written : [[0x5B, 0xC3], [0xA9, 0x5D, 0x0A, 0x6B, 0x3D, 0xC3], [0xA9, 0x61, 0xE2, 0x82, 0xAC]].flatten =
      encode "[\u00E9]\nk=\u00E9a\u20AC" := by decide
  obtain ⟨store, loaded, -, same⟩ := @load_encode_agrees 5 (by decide) _ _ written
  exact ⟨written, same (by decide) ▸ loaded⟩

/-- With a limit that no buffer may have, a text has its sections, and its bytes have no result. -/
theorem load_encode_unbuffered :
    (Keyfile.ofText (2 ^ 63) "[a]\nk=v\n").sectionNames = ["a"] ∧
      ¬∃ store, (Keyfile.load (2 ^ 63) ⟨[encode "[a]\nk=v\n"], none⟩).1 = some (.ok store) ∧
        store.sectionNames = (Keyfile.ofText (2 ^ 63) "[a]\nk=v\n").sectionNames := by
  refine ⟨by decide +kernel, ?_⟩
  rintro ⟨store, loaded, -⟩
  have stopped : (Keyfile.load (2 ^ 63) ⟨[encode "[a]\nk=v\n"], none⟩).1 = none := by decide +kernel
  cases stopped.symm.trans loaded

end ConfigStore
