import ConfigStore.Keyfile.Writer
import ConfigStore.Proofs.Keyfile.Carried

/-! The text of a keyfile, line by line, as a loader meets it. -/

namespace ConfigStore

open Utf8

/-- The lines of a section: its header, and one line for each entry. -/
def Section.lines (part : Section) : List (List Char) :=
  part.header :: part.entries.map Entry.line

/-- The lines of sections, with an empty line in front of each. -/
def spacedLines (parts : List Section) : List (List Char) :=
  parts.flatMap fun part => [] :: part.lines

/-- The lines of sections, with an empty line between them. -/
def sectionLines (parts : List Section) : List (List Char) :=
  (spacedLines parts).tail

/-- Every line of a section is closed by a newline. -/
theorem Section.render_toList (part : Section) : part.render.toList = part.lines.flatMap (· ++ ['\n']) := by
  -- Header and entries are written one after the other, each with its newline.
  have entry : ∀ entry : Entry, entry.render.toList = entry.line ++ ['\n'] := by
    intro entry
    simp [Entry.render, Entry.line]
  simp [render, lines, header, List.flatMap_map, entry]

/-- A section begins with a bracket, so its text is not empty. -/
theorem isEmpty_append_render (written : String) (part : Section) : (written ++ part.render).isEmpty = false := by
  rw [← Bool.not_eq_true, String.isEmpty_iff, ← String.toList_inj]
  simp [Section.render_toList, Section.lines, Section.header]

/-- Every line that is added to a text is closed by a newline, and only behind nothing is there no empty line in
front. -/
theorem renderOnto_toList (written : String) (parts : List Section) :
    (renderOnto written parts).toList = written.toList ++
      (if written.isEmpty then sectionLines (parts.filter fun part => !part.entries.isEmpty)
        else spacedLines (parts.filter fun part => !part.entries.isEmpty)).flatMap (· ++ ['\n']) := by
  induction parts generalizing written with
  | nil => simp [renderOnto, sectionLines, spacedLines]
  | cons part rest ih =>
    by_cases unused : part.entries.isEmpty = true
    · rw [renderOnto, if_pos unused, ih, List.filter_cons_of_neg (by simp [unused])]
    · -- From this section on there is something written.
      rw [renderOnto, if_neg unused, ih, isEmpty_append_render, List.filter_cons_of_pos (by simpa using unused)]
      by_cases first : written.isEmpty = true
      · rw [String.isEmpty_iff.1 first]
        simp [sectionLines, spacedLines, Section.render_toList]
      · simp [first, spacedLines, Section.render_toList]

/-- Every line of a keyfile is closed by a newline. -/
theorem Keyfile.render_toList (store : Keyfile) :
    store.render.toList = (sectionLines store.dropEmpty.sections).flatMap (· ++ ['\n']) := by
  -- Nothing is written in front of the first section.
  have whole := renderOnto_toList "" store.sections
  exact whole

/-- Every line is that of a section or empty. -/
theorem mem_sectionLines {parts : List Section} {line : List Char} (member : line ∈ sectionLines parts) :
    line = [] ∨ ∃ part ∈ parts, line = part.header ∨ ∃ entry ∈ part.entries, line = entry.line := by
  -- The lines of each section follow on an empty one, but for the first.
  obtain ⟨part, there, spelled⟩ := List.mem_flatMap.1 (List.mem_of_mem_tail member)
  rcases List.mem_cons.1 spelled with empty | own
  · exact .inl empty
  · rcases List.mem_cons.1 own with header | entry
    · exact .inr ⟨part, there, .inl header⟩
    · obtain ⟨one, place, same⟩ := List.mem_map.1 entry
      exact .inr ⟨part, there, .inr ⟨one, place, same.symm⟩⟩

/-- No line of a keyfile that is legible is broken. -/
theorem Keyfile.Legible.unbroken {store : Keyfile} (legible : store.Legible) :
    ∀ line ∈ sectionLines store.sections, '\n' ∉ line := by
  -- Neither names nor keys nor values break a line, and no mark does.
  intro line member
  rcases mem_sectionLines member with rfl | ⟨part, there, rfl | ⟨entry, place, rfl⟩⟩
  · simp
  · have name := (legible part there).unbroken
    simp [Section.header, name]
  · have kept := (legible part there).entries entry place
    simp [Entry.line, kept.unbrokenKey, kept.unbrokenValue]

/-- A text of unbroken lines is cut into those lines and an empty one. -/
theorem textLines_render {store : Keyfile} (legible : store.dropEmpty.Legible) (limit : Nat) :
    textLines limit store.render = (sectionLines store.dropEmpty.sections ++ [[]]).map (takeBytes limit) := by
  rw [textLines, store.render_toList, separate_flatMap_closed legible.unbroken]

/-- The bytes of a text of unbroken lines are those lines. -/
theorem byteLines_render {store : Keyfile} (legible : store.dropEmpty.Legible) :
    byteLines (encode store.render) = (sectionLines store.dropEmpty.sections).map encodeChars := by
  -- The bytes of a newline are in no other character, so lines are found in the bytes.
  have closed : separate newlineByte (encode store.render) =
      (sectionLines store.dropEmpty.sections).map encodeChars ++ [[]] := by
    rw [encode, ← encodeChars, separate_encodeChars, store.render_toList, separate_flatMap_closed legible.unbroken,
      List.map_append]
    rfl
  exact byteLines_of_closed closed

/-- The bytes of a text of unbroken lines are read as those lines. -/
theorem readLines_render {store : Keyfile} (legible : store.dropEmpty.Legible) (limit : Nat) :
    readLines limit (encode store.render) = (sectionLines store.dropEmpty.sections).map (cutChars limit) := by
  rw [readLines, byteLines_render legible, List.map_map]
  simp only [Function.comp_def, decode_take_encodeChars]

end ConfigStore
