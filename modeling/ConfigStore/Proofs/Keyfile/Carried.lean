import ConfigStore.Proofs.Keyfile.Line
import ConfigStore.Proofs.Keyfile.Outline
import ConfigStore.Proofs.Text.Line

/-! What the format can carry: names and values that no line takes for something else, and lines that fit.
Whatever is loaded can be carried, and fits when the lines of a text did. -/

namespace ConfigStore

open Utf8

/-- The line of an entry. -/
def Entry.line (entry : Entry) : List Char :=
  entry.key.toList ++ '=' :: entry.value.toList

/-- The line that begins a section. -/
def Section.header (part : Section) : List Char :=
  '[' :: (part.name.toList ++ [']'])

/-- An entry whose line is read as that entry. -/
structure Entry.Carried (entry : Entry) : Prop where
  /-- The key holds no equals sign. -/
  unsplit : '=' ∉ entry.key.toList
  /-- The key holds no newline. -/
  unbrokenKey : '\n' ∉ entry.key.toList
  /-- The key does not begin like a header. -/
  noHeader : entry.key.toList.head? ≠ some '['
  /-- The key does not begin like a comment. -/
  noComment : entry.key.toList.head? ≠ some '#'
  /-- The value is not empty. -/
  filled : entry.value ≠ ""
  /-- The value holds no newline. -/
  unbrokenValue : '\n' ∉ entry.value.toList

/-- A section whose lines are read as that section. -/
structure Section.Carried (part : Section) : Prop where
  /-- The name holds no closing bracket. -/
  unclosed : ']' ∉ part.name.toList
  /-- The name holds no newline. -/
  unbroken : '\n' ∉ part.name.toList
  /-- Each entry is carried. -/
  entries : ∀ entry ∈ part.entries, entry.Carried
  /-- No two keys are the same. -/
  keys : part.entries.Pairwise fun one other => one.sameKey other = false

/-- A keyfile whose lines are read as that keyfile. -/
structure Keyfile.Carried (store : Keyfile) : Prop where
  /-- Each section is carried. -/
  sections : ∀ part ∈ store.sections, part.Carried
  /-- No two names are the same. -/
  titles : store.sections.Pairwise fun one other => one.sameTitle other = false

/-- A section whose name and entries are each read as what they are, though keys may come twice. -/
structure Section.Legible (part : Section) : Prop where
  /-- The name holds no closing bracket. -/
  unclosed : ']' ∉ part.name.toList
  /-- The name holds no newline. -/
  unbroken : '\n' ∉ part.name.toList
  /-- Each entry is carried. -/
  entries : ∀ entry ∈ part.entries, entry.Carried

/-- A keyfile whose names and entries are each read as what they are, though names and keys may come twice. -/
def Keyfile.Legible (store : Keyfile) : Prop :=
  ∀ part ∈ store.sections, part.Legible

instance (entry : Entry) : Decidable entry.Carried :=
  decidable_of_iff
    (('=' ∉ entry.key.toList ∧ '\n' ∉ entry.key.toList) ∧
      (entry.key.toList.head? ≠ some '[' ∧ entry.key.toList.head? ≠ some '#') ∧
      entry.value ≠ "" ∧ '\n' ∉ entry.value.toList)
    ⟨fun ⟨⟨unsplit, unbroken⟩, ⟨noHeader, noComment⟩, filled, whole⟩ =>
      ⟨unsplit, unbroken, noHeader, noComment, filled, whole⟩,
    fun ⟨unsplit, unbroken, noHeader, noComment, filled, whole⟩ =>
      ⟨⟨unsplit, unbroken⟩, ⟨noHeader, noComment⟩, filled, whole⟩⟩

instance (part : Section) : Decidable part.Legible :=
  decidable_of_iff
    ((']' ∉ part.name.toList ∧ '\n' ∉ part.name.toList) ∧ ∀ entry ∈ part.entries, entry.Carried)
    ⟨fun ⟨⟨unclosed, unbroken⟩, entries⟩ => ⟨unclosed, unbroken, entries⟩,
    fun ⟨unclosed, unbroken, entries⟩ => ⟨⟨unclosed, unbroken⟩, entries⟩⟩

instance (store : Keyfile) : Decidable store.Legible :=
  inferInstanceAs (Decidable (∀ part ∈ store.sections, part.Legible))

instance (part : Section) : Decidable part.Carried :=
  decidable_of_iff
    ((']' ∉ part.name.toList ∧ '\n' ∉ part.name.toList) ∧ (∀ entry ∈ part.entries, entry.Carried) ∧
      part.entries.Pairwise fun one other => one.sameKey other = false)
    ⟨fun ⟨⟨unclosed, unbroken⟩, entries, keys⟩ => ⟨unclosed, unbroken, entries, keys⟩,
    fun ⟨unclosed, unbroken, entries, keys⟩ => ⟨⟨unclosed, unbroken⟩, entries, keys⟩⟩

instance (store : Keyfile) : Decidable store.Carried :=
  decidable_of_iff
    ((∀ part ∈ store.sections, part.Carried) ∧
      store.sections.Pairwise fun one other => one.sameTitle other = false)
    ⟨fun ⟨sections, titles⟩ => ⟨sections, titles⟩, fun ⟨sections, titles⟩ => ⟨sections, titles⟩⟩

/-- What is carried is legible. -/
theorem Section.Carried.legible {part : Section} (carried : part.Carried) : part.Legible :=
  ⟨carried.unclosed, carried.unbroken, carried.entries⟩

/-- What is carried is legible. -/
theorem Keyfile.Carried.legible {store : Keyfile} (carried : store.Carried) : store.Legible :=
  fun part member => (carried.sections part member).legible

/-- What is carried holds nothing twice. -/
theorem Keyfile.Carried.withFirsts_eq {store : Keyfile} (carried : store.Carried) : store.withFirsts = store := by
  -- Neither names nor keys are the same.
  rw [withFirsts, firsts_of_pairwise carried.titles]
  refine congrArg Keyfile.mk ((List.map_congr_left fun part member => ?_).trans (List.map_id _))
  exact congrArg (Section.mk part.name) (firsts_of_pairwise (carried.sections part member).keys)

/-- The line of an entry has at most so many bytes. -/
def Entry.Fits (limit : Nat) (entry : Entry) : Prop :=
  entry.key.utf8ByteSize + 1 + entry.value.utf8ByteSize ≤ limit

/-- The lines of a section have at most so many bytes each. -/
structure Section.Fits (limit : Nat) (part : Section) : Prop where
  /-- The header fits. -/
  header : part.name.utf8ByteSize + 2 ≤ limit
  /-- The line of each entry fits. -/
  entries : ∀ entry ∈ part.entries, entry.Fits limit

/-- The lines of a keyfile have at most so many bytes each. -/
def Keyfile.Fits (limit : Nat) (store : Keyfile) : Prop :=
  ∀ part ∈ store.sections, part.Fits limit

instance (limit : Nat) (entry : Entry) : Decidable (entry.Fits limit) :=
  inferInstanceAs (Decidable (_ ≤ _))

instance (limit : Nat) (part : Section) : Decidable (part.Fits limit) :=
  decidable_of_iff (part.name.utf8ByteSize + 2 ≤ limit ∧ ∀ entry ∈ part.entries, entry.Fits limit)
    ⟨fun ⟨header, entries⟩ => ⟨header, entries⟩, fun ⟨header, entries⟩ => ⟨header, entries⟩⟩

instance (limit : Nat) (store : Keyfile) : Decidable (store.Fits limit) :=
  inferInstanceAs (Decidable (∀ part ∈ store.sections, part.Fits limit))

/-- The bytes of an entry's line. -/
theorem Entry.length_line (entry : Entry) :
    (encodeChars entry.line).length = entry.key.utf8ByteSize + 1 + entry.value.utf8ByteSize := by
  -- The mark between key and value takes one byte.
  have mark : (String.utf8EncodeChar '=').length = 1 := by decide
  rw [line, encodeChars_append, encodeChars_cons, List.length_append, List.length_append, mark,
    length_encodeChars, length_encodeChars]
  omega

/-- The bytes of a section's header. -/
theorem Section.length_header (part : Section) :
    (encodeChars part.header).length = part.name.utf8ByteSize + 2 := by
  -- Each bracket takes one byte.
  have opening : (String.utf8EncodeChar '[').length = 1 := by decide
  have closing : (String.utf8EncodeChar ']').length = 1 := by decide
  rw [header, encodeChars_cons, encodeChars_append, encodeChars_cons, encodeChars_nil, List.append_nil,
    List.length_append, List.length_append, opening, closing, length_encodeChars]
  omega

/-- A line of an entry begins as its key does, or with an equals sign. -/
theorem Entry.head?_line (entry : Entry) :
    entry.line.head? = entry.key.toList.head?.or (some '=') := by
  rw [line, List.head?_append, List.head?_cons]

/-- The line of an entry that is carried is that entry. -/
theorem Entry.Carried.entryLine {entry : Entry} (carried : entry.Carried) : EntryLine entry.line entry := by
  -- The first character is that of the key, or the mark behind an empty one.
  refine ⟨rfl, carried.unsplit, carried.filled, ?_, ?_⟩
  · rw [head?_line]
    cases begins : entry.key.toList.head? with
    | none => decide
    | some first =>
      rw [Option.some_or, ← begins]
      exact carried.noHeader
  · rw [head?_line]
    cases begins : entry.key.toList.head? with
    | none => decide
    | some first =>
      rw [Option.some_or, ← begins]
      exact carried.noComment

/-- The header of a section that is legible begins that section. -/
theorem Section.Legible.headerLine {part : Section} (legible : part.Legible) : HeaderLine part.header part.name :=
  ⟨legible.unclosed, [], rfl⟩

/-- An entry on an unbroken line is carried, and fits if the line does. -/
theorem EntryLine.carried {line : List Char} {entry : Entry} (here : EntryLine line entry) (unbroken : '\n' ∉ line) :
    entry.Carried := by
  -- What the key begins with, the line begins with.
  obtain ⟨rfl, unsplit, filled, noHeader, noComment⟩ := here
  simp only [List.mem_append, List.mem_cons, not_or] at unbroken
  refine ⟨unsplit, unbroken.1, fun begins => noHeader ?_, fun begins => noComment ?_, filled, unbroken.2.2⟩
  · rw [List.head?_append, begins, Option.some_or]
  · rw [List.head?_append, begins, Option.some_or]

/-- The entries above the next header are on the lines that make them up. -/
theorem entriesBelow_lines {lines : List (List Char)} {entry : Entry}
    (member : entry ∈ entriesBelow (lines.map Line.ofChars)) : ∃ line ∈ lines, EntryLine line entry := by
  -- Down to the next header, lines are entries or say nothing.
  induction lines with
  | nil => simp [entriesBelow] at member
  | cons line rest ih =>
    have later : entry ∈ entriesBelow (rest.map Line.ofChars) → ∃ one ∈ line :: rest, EntryLine one entry := by
      intro behind
      obtain ⟨other, there, spelled⟩ := ih behind
      exact ⟨other, List.mem_cons_of_mem _ there, spelled⟩
    cases told : Line.ofChars line with
    | header name => simp [told, entriesBelow] at member
    | entry key value =>
      simp only [List.map_cons, told, entriesBelow, List.mem_cons] at member
      rcases member with rfl | behind
      · exact ⟨line, List.mem_cons_self, Line.ofChars_eq_entry_iff.1 told⟩
      · exact later behind
    | void => exact later (by simpa [told, entriesBelow] using member)

/-- The blocks of lines are on the lines that make them up. -/
theorem blocks_lines {lines : List (List Char)} {part : Section} (member : part ∈ blocks (lines.map Line.ofChars)) :
    (∃ line ∈ lines, HeaderLine line part.name) ∧ ∀ entry ∈ part.entries, ∃ line ∈ lines, EntryLine line entry := by
  induction lines with
  | nil => simp [blocks] at member
  | cons line rest ih =>
    -- A line in front of the others takes none of theirs away.
    have later : part ∈ blocks (rest.map Line.ofChars) →
        (∃ one ∈ line :: rest, HeaderLine one part.name) ∧
          ∀ entry ∈ part.entries, ∃ one ∈ line :: rest, EntryLine one entry := by
      intro behind
      obtain ⟨⟨one, there, header⟩, entries⟩ := ih behind
      refine ⟨⟨one, List.mem_cons_of_mem _ there, header⟩, fun entry found => ?_⟩
      obtain ⟨other, place, spelled⟩ := entries entry found
      exact ⟨other, List.mem_cons_of_mem _ place, spelled⟩
    cases told : Line.ofChars line with
    | header name =>
      simp only [List.map_cons, told, blocks, List.mem_cons] at member
      rcases member with rfl | behind
      · refine ⟨⟨line, List.mem_cons_self, Line.ofChars_eq_header_iff.1 told⟩, fun entry found => ?_⟩
        obtain ⟨other, place, spelled⟩ := entriesBelow_lines found
        exact ⟨other, List.mem_cons_of_mem _ place, spelled⟩
      · exact later behind
    | entry key value => exact later (by simpa [told, blocks] using member)
    | void => exact later (by simpa [told, blocks] using member)

/-- The sections of a keyfile are on the lines that make it up. -/
theorem outline_lines {lines : List (List Char)} {part : Section}
    (member : part ∈ (outline (lines.map Line.ofChars)).sections) :
    (∃ line ∈ lines, HeaderLine line part.name) ∧ ∀ entry ∈ part.entries, ∃ line ∈ lines, EntryLine line entry := by
  obtain ⟨block, kept, rfl⟩ := List.mem_map.1 member
  obtain ⟨header, entries⟩ := blocks_lines ((firsts_sublist _).subset kept)
  exact ⟨header, fun entry found => entries entry ((firsts_sublist _).subset found)⟩

/-- Whatever unbroken lines make up is carried. -/
theorem outline_carried {lines : List (List Char)} (unbroken : ∀ line ∈ lines, '\n' ∉ line) :
    (outline (lines.map Line.ofChars)).Carried := by
  -- Every name and every entry is spelled by some line, and doubled ones were dropped.
  refine ⟨fun part member => ?_, ?_⟩
  · obtain ⟨⟨line, there, unclosed, rest, rfl⟩, entries⟩ := outline_lines member
    have name := unbroken _ there
    simp only [List.mem_cons, List.mem_append, not_or] at name
    refine ⟨unclosed, name.2.1, fun entry found => ?_, ?_⟩
    · obtain ⟨other, place, spelled⟩ := entries entry found
      exact spelled.carried (unbroken other place)
    · obtain ⟨block, -, rfl⟩ := List.mem_map.1 member
      exact pairwise_firsts block.entries
  · exact List.pairwise_map.2 (pairwise_firsts _)

/-- No line of a text is broken. -/
theorem textLines_unbroken (limit : Nat) (text : String) : ∀ line ∈ textLines limit text, '\n' ∉ line := by
  intro line member
  obtain ⟨piece, there, rfl⟩ := List.mem_map.1 member
  exact fun broken => not_mem_of_mem_separate there ((takeBytes_start limit piece).subset broken)

/-- No line that is read is broken. -/
theorem readLines_unbroken (limit : Nat) (bytes : List UInt8) : ∀ line ∈ readLines limit bytes, '\n' ∉ line := by
  intro line member
  obtain ⟨piece, there, rfl⟩ := List.mem_map.1 member
  exact newline_not_mem_decode fun broken => not_mem_of_mem_byteLines there (List.mem_of_mem_take broken)

/-- What is made up of lines that fit fits. -/
theorem outline_fits {limit : Nat} {lines : List (List Char)}
    (fits : ∀ line ∈ lines, (encodeChars line).length ≤ limit) : (outline (lines.map Line.ofChars)).Fits limit := by
  -- What is written for a name or an entry is no longer than the line that spelled it.
  intro part member
  obtain ⟨⟨line, there, -, rest, rfl⟩, entries⟩ := outline_lines member
  refine ⟨?_, fun entry found => ?_⟩
  · have size := fits _ there
    have whole : '[' :: (part.name.toList ++ ']' :: rest) = part.header ++ rest := by simp [Section.header]
    rw [whole, encodeChars_append, List.length_append, Section.length_header] at size
    exact Nat.le_of_add_right_le size
  · obtain ⟨other, place, spelled⟩ := entries entry found
    have size := fits other place
    rw [spelled.spelled] at size
    rw [Entry.Fits, ← Entry.length_line]
    exact size

end ConfigStore
