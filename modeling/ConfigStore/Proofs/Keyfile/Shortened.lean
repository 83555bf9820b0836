import ConfigStore.Proofs.Keyfile.Carried

/-! What a line says after it was cut. A header is whole or says nothing, and an entry keeps its key or says
nothing, so no cut line is taken for another. -/

namespace ConfigStore

open Utf8

/-- A start of a line, perhaps with a replacement behind it. -/
def Shortened (line cut : List Char) : Prop :=
  ∃ front, front <+: line ∧ (cut = front ∨ cut = front ++ [replacement])

/-- A line that is cut between bytes is shortened. -/
theorem shortened_cutChars (limit : Nat) (line : List Char) : Shortened line (cutChars limit line) :=
  ⟨_, takeBytes_start limit line, cutChars_eq limit line⟩

namespace Shortened

variable {line cut : List Char}

/-- What a shortened line holds is in its start, or a replacement. -/
theorem mem_front {front : List Char} {char : Char} (spelled : cut = front ∨ cut = front ++ [replacement])
    (member : char ∈ cut) : char ∈ front ∨ char = replacement := by
  rcases spelled with rfl | rfl
  · exact .inl member
  · simpa using member

/-- A shortened line begins as the line does, if more than a replacement is left of it. -/
theorem begins (shortened : Shortened line cut) : cut.head? = line.head? ∨ cut = [] ∨ cut = [replacement] := by
  obtain ⟨front, ⟨back, rfl⟩, spelled⟩ := shortened
  cases front with
  | nil => exact .inr spelled
  | cons first rest => rcases spelled with rfl | rfl <;> exact .inl rfl

/-- Up to a mark that it holds, a shortened line is the line. -/
theorem unique (shortened : Shortened line cut) {mark : Char} (other : mark ≠ replacement)
    {one two back rest : List Char}
    (cutAt : cut = one ++ mark :: back) (lineAt : line = two ++ mark :: rest) (first : mark ∉ one)
    (last : mark ∉ two) : one = two := by
  obtain ⟨front, ⟨tail, whole⟩, spelled⟩ := shortened
  -- The mark is in the start, and what is in front of it there is in front of it in both.
  have present : mark ∈ front := by
    have member : mark ∈ cut := by simp [cutAt]
    exact (mem_front spelled member).resolve_right other
  obtain ⟨before, after, rfl, absent⟩ := List.eq_append_cons_of_mem present
  have ofCut : cut.takeWhile (· != mark) = before := by
    rcases spelled with rfl | rfl
    · exact takeWhile_first absent after
    · rw [List.append_assoc, List.cons_append]
      exact takeWhile_first absent _
  have ofLine : line.takeWhile (· != mark) = before := by
    rw [← whole, List.append_assoc, List.cons_append]
    exact takeWhile_first absent _
  rw [← takeWhile_first first back, ← cutAt, ofCut, ← ofLine, lineAt, takeWhile_first last]

end Shortened

/-- A header that is shortened is whole or says nothing. -/
theorem Section.Carried.shortened {part : Section} (carried : part.Carried) {cut : List Char}
    (shortened : Shortened part.header cut) :
    Line.ofChars cut = .header part.name ∨ Line.ofChars cut = .void := by
  cases told : Line.ofChars cut with
  | header name =>
    obtain ⟨absent, rest, spelled⟩ := Line.ofChars_eq_header_iff.1 told
    have same : '[' :: name.toList = '[' :: part.name.toList :=
      shortened.unique (by decide : ']' ≠ replacement) spelled rfl (by simpa using absent)
        (by simpa using carried.unclosed)
    exact .inl (congrArg Line.header (String.toList_inj.1 (List.cons.inj same).2))
  | entry key value =>
    -- An entry holds an equals sign, and does not begin as a header does.
    obtain ⟨spelled, -, -, noHeader, -⟩ := Line.ofChars_eq_entry_iff.1 told
    have marked : '=' ∈ cut := by simp [spelled]
    rcases shortened.begins with same | rfl | rfl
    · exact absurd same noHeader
    · cases marked
    · exact absurd marked (by decide)
  | void => exact .inr rfl

/-- An entry that is shortened keeps its key or says nothing. -/
theorem Entry.Carried.shortened {entry : Entry} (carried : entry.Carried) {cut : List Char}
    (shortened : Shortened entry.line cut) :
    (∃ value, Line.ofChars cut = .entry entry.key value) ∨ Line.ofChars cut = .void := by
  cases told : Line.ofChars cut with
  | header name =>
    -- A header begins with a bracket, and the line does not.
    obtain ⟨-, rest, rfl⟩ := Line.ofChars_eq_header_iff.1 told
    rcases shortened.begins with same | empty | lone
    · exact absurd same.symm carried.entryLine.noHeader
    · cases empty
    · exact absurd (List.cons.inj lone).1 (by decide)
  | entry key value =>
    obtain ⟨spelled, absent, -, -, -⟩ := Line.ofChars_eq_entry_iff.1 told
    have same : key.toList = entry.key.toList :=
      shortened.unique (by decide : '=' ≠ replacement) spelled rfl absent carried.unsplit
    exact .inl ⟨value, by rw [String.toList_inj.1 same]⟩
  | void => exact .inr rfl

/-- A header that is cut between bytes is read exactly when it fits. -/
theorem Section.Carried.cutChars_header_iff {part : Section} (carried : part.Carried) (limit : Nat) :
    Line.ofChars (cutChars limit part.header) = .header part.name ↔ part.name.utf8ByteSize + 2 ≤ limit := by
  rw [← part.length_header]
  constructor
  · intro told
    -- Only the whole header holds the closing bracket.
    obtain ⟨-, rest, spelled⟩ := Line.ofChars_eq_header_iff.1 told
    have closed : ']' ∈ takeBytes limit part.header := by
      have member : ']' ∈ cutChars limit part.header := by simp [spelled]
      exact (Shortened.mem_front (cutChars_eq limit part.header) member).resolve_right (by decide)
    have front : takeBytes limit part.header <+: ('[' :: part.name.toList) ++ [']'] := takeBytes_start ..
    rcases List.prefix_concat_iff.1 front with whole | start
    · have size := length_takeBytes limit part.header
      rw [whole] at size
      exact size
    · have member := start.subset closed
      simp [carried.unclosed] at member
  · intro fits
    rw [cutChars_of_fits fits]
    exact Line.ofChars_eq_header_iff.2 carried.legible.headerLine

/-- An entry is read as it was written when its line fits, and when the cut goes through a replacement at its
end. -/
def Entry.Survives (limit : Nat) (entry : Entry) : Prop :=
  entry.Fits limit ∨ (entry.value.toList.getLast? = some replacement ∧
    entry.key.utf8ByteSize + 1 + entry.value.utf8ByteSize < limit + 3)

/-- The lines of a section are read as they were written. -/
structure Section.Survives (limit : Nat) (part : Section) : Prop where
  /-- The header fits. -/
  header : part.name.utf8ByteSize + 2 ≤ limit
  /-- Each entry is read as it was written. -/
  entries : ∀ entry ∈ part.entries, entry.Survives limit

/-- The lines of a keyfile are read as they were written. -/
def Keyfile.Survives (limit : Nat) (store : Keyfile) : Prop :=
  ∀ part ∈ store.sections, part.Survives limit

instance (limit : Nat) (entry : Entry) : Decidable (entry.Survives limit) :=
  inferInstanceAs (Decidable (_ ∨ _))

instance (limit : Nat) (part : Section) : Decidable (part.Survives limit) :=
  decidable_of_iff (part.name.utf8ByteSize + 2 ≤ limit ∧ ∀ entry ∈ part.entries, entry.Survives limit)
    ⟨fun ⟨header, entries⟩ => ⟨header, entries⟩, fun ⟨header, entries⟩ => ⟨header, entries⟩⟩

instance (limit : Nat) (store : Keyfile) : Decidable (store.Survives limit) :=
  inferInstanceAs (Decidable (∀ part ∈ store.sections, part.Survives limit))

/-- A line of an entry ends as its value does. -/
theorem Entry.getLast?_line {entry : Entry} (filled : entry.value ≠ "") :
    entry.line.getLast? = entry.value.toList.getLast? := by
  obtain ⟨first, rest, whole⟩ := List.exists_cons_of_ne_nil (mt String.toList_eq_nil_iff.1 filled)
  simp [Entry.line, whole, List.getLast?_append, List.getLast?_cons]

/-- An entry survives exactly when a cut leaves its line as it is. -/
theorem Entry.survives_iff {entry : Entry} (filled : entry.value ≠ "") (limit : Nat) :
    entry.Survives limit ↔ cutChars limit entry.line = entry.line := by
  rw [Entry.Survives, Entry.Fits, ← entry.length_line, ← getLast?_line filled, ← cutChars_eq_self_iff]

/-- An entry that is cut between bytes is read as it was written exactly when it survives. -/
theorem Entry.Carried.cutChars_line_iff {entry : Entry} (carried : entry.Carried) (limit : Nat) :
    Line.ofChars (cutChars limit entry.line) = .entry entry.key entry.value ↔ entry.Survives limit := by
  -- The line is read as the entry only if it is spelled like it.
  rw [survives_iff carried.filled, Line.ofChars_eq_entry_iff]
  constructor
  · intro here
    exact here.spelled
  · intro same
    rw [same]
    exact carried.entryLine

/-- What is made up of lines that a cut leaves as they are survives. -/
theorem outline_survives {limit : Nat} {lines : List (List Char)} (uncut : ∀ line ∈ lines, cutChars limit line = line) :
    (outline (lines.map Line.ofChars)).Survives limit := by
  -- Each name and each entry is on a line that the cut leaves as it is.
  intro part member
  obtain ⟨⟨line, there, -, rest, spelled⟩, entries⟩ := outline_lines member
  refine ⟨?_, fun entry found => ?_⟩
  · -- The closing bracket is no replacement, so it is among the characters that fit.
    have whole : line = part.header ++ rest := by simp [spelled, Section.header]
    have start : part.header <+: takeBytes limit line := by
      rcases cutChars_eq limit line with same | same
      · rw [← same, uncut line there, whole]
        exact List.prefix_append ..
      · rw [uncut line there, whole] at same
        have front : part.header <+: takeBytes limit line ++ [replacement] := whole ▸ same ▸ List.prefix_append ..
        rcases List.prefix_concat_iff.1 front with all | start
        · have closing : part.header.getLast? = some ']' := List.getLast?_concat (l := '[' :: part.name.toList)
          rw [all, List.getLast?_concat] at closing
          exact absurd (Option.some.inj closing) (by decide)
        · exact start
    obtain ⟨more, kept⟩ := start
    have size := length_takeBytes limit line
    rw [← kept, encodeChars_append, List.length_append, Section.length_header] at size
    exact Nat.le_of_add_right_le size
  · obtain ⟨other, place, here⟩ := entries entry found
    rw [Entry.survives_iff here.filled, Entry.line, ← here.spelled]
    exact uncut other place

end ConfigStore
