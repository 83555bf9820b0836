import ConfigStore.Proofs.Keyfile.Report
import ConfigStore.Proofs.Keyfile.RoundTrip

/-! A keyfile may hold names and keys twice. When its text is loaded, the first of each stays, and it is reported once
for each section and each key of a section that stays that they were dropped. -/

namespace ConfigStore

open Utf8

/-- The items of a list, each with those in front of it, when some others are in front of all. -/
def eachBehind {α : Type} (above : List α) : List α → List (List α × α)
  | [] => []
  | item :: rest => (above, item) :: eachBehind (above ++ [item]) rest

/-- The number of the line on which a section begins, counted from the sections that are written above it. Each takes
a line for its header, one for each entry and an empty one behind. -/
def headerNumber (above : List Section) : Nat :=
  (above.flatMap Section.entries).length + 2 * above.length + 1

/-- What is reported of an entry below a header, given the entries in between: whether it is dropped. -/
def Entry.repetitions (top : Nat) (name : String) : List Entry × Entry → List Event
  | (above, entry) =>
    if above.any (Entry.sameKey · entry) then [.duplicateKey (top + 1 + above.length) entry.key name] else []

/-- What is reported of a section, given the sections above it: that it is dropped, or which of its keys are. -/
def Section.repetitions : List Section × Section → List Event
  | (above, part) =>
    if above.any (Section.sameTitle · part) then [.duplicateSection (headerNumber above) part.name]
    else (eachBehind [] part.entries).flatMap (Entry.repetitions (headerNumber above) part.name)

/-- What is reported when the text of a keyfile without empty sections is loaded. -/
def Keyfile.repetitions (store : Keyfile) : List Event :=
  (eachBehind [] store.sections).flatMap Section.repetitions

/-- The lines of sections above a header, where an empty one stands in front of each. -/
theorem length_spacedLines (parts : List Section) : (spacedLines parts).length + 1 = headerNumber parts := by
  -- A section adds its header and an empty line to the lines of its entries.
  induction parts with
  | nil => rfl
  | cons part rest ih =>
    simp only [spacedLines, headerNumber, Section.lines, List.flatMap_cons, List.length_append, List.length_cons,
      List.length_map] at ih ⊢
    omega

/-- The header of a section stands behind an empty line, and its entries behind the header. -/
theorem spacedLines_singleton (part : Section) :
    spacedLines [part] = [] :: part.header :: part.entries.map Entry.line := by
  simp [spacedLines, Section.lines]

/-- Below whatever lines, the lines of a section that is legible are that section. -/
theorem Section.Legible.blocks_append_spacedLines {part : Section} (legible : part.Legible) (above : List Line) :
    blocks (above ++ (spacedLines [part]).map Line.ofChars) = blocks above ++ [part] := by
  -- No entry stands in front of the header, so none comes to the section above.
  have alone : Keyfile.Legible ⟨[part]⟩ := List.forall_mem_singleton.2 legible
  have told := Line.ofChars_eq_header_iff.2 legible.headerLine
  have empty : entriesBelow ((spacedLines [part]).map Line.ofChars) = [] := by
    rw [spacedLines_singleton]
    simp only [List.map_cons, told]
    rfl
  rw [blocks_append empty, alone.blocks_spacedLines]

namespace Loader

/-- Lines are taken one after the other, so what comes later is taken by the loader that the first ones leave. -/
theorem takeAll_append (loader : Loader) (number : Nat) (front back : List (List Char)) :
    (loader.takeAll number (front ++ back)).2 = (loader.takeAll number front).2 ++
      ((loader.takeAll number front).1.takeAll (number + front.length) back).2 := by
  -- The number counts on with every line in front.
  induction front generalizing loader number with
  | nil => rfl
  | cons line rest ih =>
    simp only [List.cons_append, takeAll, ih, List.length_cons, List.append_assoc]
    rw [Nat.add_assoc, Nat.add_comm 1]

/-- Lines of bytes that fit are taken as they are read, and nothing is reported besides. -/
theorem takeLines_of_fits (loader : Loader) {limit : Nat} (number : Nat) {lines : List (List UInt8)}
    (fits : ∀ line ∈ lines, line.length ≤ limit) :
    loader.takeLines limit number lines = loader.takeAll number (lines.map (readLine limit)) := by
  -- Only a line beyond the limit is reported as cut.
  induction lines generalizing loader number with
  | nil => rfl
  | cons line rest ih =>
    obtain ⟨here, behind⟩ := List.forall_mem_cons.1 fits
    simp only [takeLines, takeKept, takeAll, List.map_cons, ih _ _ behind, if_neg (Nat.not_lt.2 here), List.nil_append]
    rfl

namespace Follows

variable {loader : Loader} {above : List Line} {front : List Section}

/-- Of entries below a header, those are reported whose key comes twice, if the section is not dropped. -/
theorem takeAll_entries {part : Section} {entries : List Entry} (follows : loader.Follows above)
    (shown : blocks above = front ++ [part]) (carried : ∀ entry ∈ entries, entry.Carried) (top : Nat) :
    (loader.takeAll (top + 1 + part.entries.length) (entries.map Entry.line)).2 =
      if front.any (Section.hasName part.name) then []
      else (eachBehind part.entries entries).flatMap (Entry.repetitions top part.name) := by
  induction entries generalizing loader above part with
  | nil =>
    rw [eachBehind, List.flatMap_nil, ite_self]
    rfl
  | cons entry rest ih =>
    obtain ⟨here, behind⟩ := List.forall_mem_cons.1 carried
    have told := Line.ofChars_eq_entry_iff.2 here.entryLine
    have own : (loader.take (top + 1 + part.entries.length) (.entry entry.key entry.value)).2 =
        if front.any (Section.hasName part.name) then []
        else Entry.repetitions top part.name (part.entries, entry) := by
      rw [follows.take_events]
      simp only [Line.repetition, shown, List.getLast?_concat, List.dropLast_concat, Option.bind_some]
      split
      · rfl
      · exact apply_ite Option.toList ..
    -- The entry joins the section for the lines behind it, whether it is kept or not.
    have more := ih (follows.take (top + 1 + part.entries.length) (.entry entry.key entry.value))
      (blocks_append_entry shown entry.key entry.value) behind
    have added : (part.add entry).entries = part.entries ++ [entry] := rfl
    rw [added, Section.add_name, List.length_append, List.length_singleton, ← Nat.add_assoc] at more
    simp only [List.map_cons, Loader.takeAll, told, own, more, eachBehind, List.flatMap_cons]
    split
    · rfl
    · rfl

/-- A section is reported as dropped if its name comes twice, and otherwise its keys are that come twice. -/
theorem takeAll_section {part : Section} (follows : loader.Follows above) (shown : blocks above = front)
    (legible : part.Legible) :
    (loader.takeAll (spacedLines front).length (spacedLines [part])).2 = Section.repetitions (front, part) := by
  have blank : Line.ofChars [] = .void := rfl
  have told := Line.ofChars_eq_header_iff.2 legible.headerLine
  have own : (loader.take (headerNumber front) (.header part.name)).2 =
      if front.any (Section.hasName part.name) then [.duplicateSection (headerNumber front) part.name] else [] := by
    rw [follows.take_events]
    simp only [Line.repetition, shown]
    exact apply_ite Option.toList ..
  -- The header begins a section of which the entries behind it are the only ones.
  have begun : blocks (above ++ [.header part.name]) = front ++ [⟨part.name, []⟩] := by
    rw [blocks_append rfl, shown]
    rfl
  have entries := (follows.take (headerNumber front) (.header part.name)).takeAll_entries begun legible.entries
    (headerNumber front)
  simp only [List.length_nil, Nat.add_zero] at entries
  have first : loader.take (spacedLines front).length .void = (loader, []) := rfl
  have same : front.any (Section.sameTitle · part) = front.any (Section.hasName part.name) := rfl
  simp only [spacedLines_singleton, Loader.takeAll, blank, first, told, length_spacedLines, own, entries,
    List.nil_append, Section.repetitions, same]
  split
  · rfl
  · rfl

/-- Sections are reported on one after the other. -/
theorem takeAll_sections {parts : List Section} (follows : loader.Follows above) (shown : blocks above = front)
    (legible : ∀ part ∈ parts, part.Legible) :
    (loader.takeAll (spacedLines front).length (spacedLines parts)).2 =
      (eachBehind front parts).flatMap Section.repetitions := by
  induction parts generalizing loader above front with
  | nil => rfl
  | cons part rest ih =>
    obtain ⟨here, behind⟩ := List.forall_mem_cons.1 legible
    -- The sections above the next one are those from before and this one.
    have lines : spacedLines (part :: rest) = spacedLines [part] ++ spacedLines rest := by simp [spacedLines]
    have count : (spacedLines front).length + (spacedLines [part]).length = (spacedLines (front ++ [part])).length := by
      simp [spacedLines]
    have grown : blocks (above ++ (spacedLines [part]).map Line.ofChars) = front ++ [part] := by
      rw [here.blocks_append_spacedLines, shown]
    rw [lines, takeAll_append, follows.takeAll_section shown here, count,
      ih (follows.takeAll _ _) grown behind, eachBehind, List.flatMap_cons]

end Follows

end Loader

/-- When a keyfile without empty sections is loaded from its lines, what comes twice is reported. -/
theorem Keyfile.Legible.takeAll_events {store : Keyfile} (legible : store.Legible) :
    (Loader.takeAll {} 1 (sectionLines store.sections)).2 = store.repetitions := by
  have blank : blocks [] = [] := rfl
  have events := Loader.Follows.nothing.takeAll_sections blank legible
  -- The empty line in front of the first section is not written, and would say nothing.
  rw [repetitions, ← events, sectionLines]
  cases store.sections with
  | nil => rfl
  | cons part rest => rfl

/-- All that is reported of repetitions is a warning. -/
theorem Keyfile.level_of_mem_repetitions {store : Keyfile} {event : Event} (member : event ∈ store.repetitions) :
    event.level = .warn := by
  -- Each event is that of one section, or of one of its entries.
  obtain ⟨⟨above, part⟩, -, own⟩ := List.mem_flatMap.1 member
  rw [Section.repetitions] at own
  split at own
  · rw [List.mem_singleton.1 own]
    rfl
  · obtain ⟨⟨before, entry⟩, -, here⟩ := List.mem_flatMap.1 own
    rw [Entry.repetitions] at here
    split at here
    · rw [List.mem_singleton.1 here]
      rfl
    · cases here

/-- Of entries below others, each is kept or reported. -/
theorem Entry.length_repetitions (top : Nat) (name : String) (above entries : List Entry) :
    ((eachBehind above entries).flatMap (Entry.repetitions top name)).length +
        (firsts Entry.sameKey (above ++ entries)).length =
      (firsts Entry.sameKey above).length + entries.length := by
  induction entries generalizing above with
  | nil => simp [eachBehind]
  | cons entry rest ih =>
    have more := ih (above ++ [entry])
    rw [firsts_append_singleton, List.append_assoc, List.singleton_append, List.length_append] at more
    rw [eachBehind, List.flatMap_cons, List.length_append, List.length_cons, Entry.repetitions]
    -- An entry is reported just if it is not kept.
    cases repeated : above.any (Entry.sameKey · entry) with
    | true =>
      simp only [repeated, if_true, List.length_nil, List.length_singleton] at more ⊢
      omega
    | false =>
      simp only [repeated, Bool.false_eq_true, if_false, List.length_nil, List.length_singleton] at more ⊢
      omega

/-- Of sections below others, each is reported, or it is kept and each of its entries is kept or reported. -/
theorem Section.length_repetitions (above parts : List Section) :
    ((eachBehind above parts).flatMap Section.repetitions).length +
          (firsts Section.sameTitle (above ++ parts)).length +
        (((firsts Section.sameTitle (above ++ parts)).map Section.withFirsts).flatMap Section.entries).length +
          ((firsts Section.sameTitle above).flatMap Section.entries).length =
      (firsts Section.sameTitle above).length + parts.length +
        ((firsts Section.sameTitle (above ++ parts)).flatMap Section.entries).length +
          (((firsts Section.sameTitle above).map Section.withFirsts).flatMap Section.entries).length := by
  induction parts generalizing above with
  | nil =>
    simp only [eachBehind, List.flatMap_nil, List.append_nil, List.length_nil]
    omega
  | cons part rest ih =>
    have more := ih (above ++ [part])
    rw [firsts_append_singleton, List.append_assoc, List.singleton_append] at more
    rw [eachBehind, List.flatMap_cons, List.length_append, List.length_cons, Section.repetitions]
    cases repeated : above.any (Section.sameTitle · part) with
    | true =>
      simp only [repeated, if_true, List.append_nil, List.length_singleton] at more ⊢
      omega
    | false =>
      have own := Entry.length_repetitions (headerNumber above) part.name [] part.entries
      simp only [repeated, Bool.false_eq_true, if_false, List.map_append, List.flatMap_append, List.length_append,
        List.map_cons, List.map_nil, List.flatMap_cons, List.flatMap_nil, List.length_singleton, List.length_nil,
        List.nil_append, Section.withFirsts, firsts] at more own ⊢
      omega

/-- What is reported and what is left are as many as the sections that there were and the entries of those that
stay. -/
theorem Keyfile.length_repetitions (store : Keyfile) :
    store.repetitions.length + store.withFirsts.sections.length +
        (store.withFirsts.sections.flatMap Section.entries).length =
      store.sections.length + ((firsts Section.sameTitle store.sections).flatMap Section.entries).length := by
  have whole := Section.length_repetitions [] store.sections
  simp only [firsts, List.nil_append, List.map_nil, List.flatMap_nil, List.length_nil, Nat.add_zero,
    Nat.zero_add] at whole
  rw [withFirsts, List.length_map]
  exact whole

section Written

variable {limit : Nat} {store : Keyfile} (legible : store.dropEmpty.Legible) (fits : store.dropEmpty.Fits limit)

include legible fits

/-- The text of lines that fit is loaded without what comes twice, and that is reported. -/
theorem loadText_render : Keyfile.loadText limit store.render =
    (store.dropEmpty.withFirsts, store.dropEmpty.repetitions) := by
  have uncut : ∀ line ∈ sectionLines store.dropEmpty.sections, takeBytes limit line = line := fun line member =>
    takeBytes_of_fits (fits.lines line member)
  have lines : textLines limit store.render = sectionLines store.dropEmpty.sections ++ [[]] := by
    rw [textLines_render legible, List.map_append, List.map_congr_left uncut, List.map_id']
    rfl
  refine Prod.ext ?_ ?_
  · have same := legible.outline_of_uncut fun line _ => rfl
    have made := ofText_eq_outline limit store.render
    rw [lines, List.map_append] at made
    exact made.trans ((outline_append_void _).trans same)
  · -- The empty line behind the last newline says nothing.
    have events := Loader.takeAll_append {} 1 (sectionLines store.dropEmpty.sections) [[]]
    rw [legible.takeAll_events, ← lines] at events
    rw [loadText_eq_takeAll]
    exact events.trans (List.append_nil _)

/-- The bytes of lines that fit are loaded as the text is. -/
theorem load_render (held : limit ≤ Keyfile.greatestCapacity) {chunks : List (List UInt8)}
    (spelled : chunks.flatten = encode store.render) :
    Keyfile.load limit ⟨chunks, none⟩ = (some (.ok store.dropEmpty.withFirsts), store.dropEmpty.repetitions) := by
  have uncut : ∀ line ∈ sectionLines store.dropEmpty.sections, cutChars limit line = line := fun line member =>
    cutChars_of_fits (fits.lines line member)
  rw [Keyfile.load_eq_loadBytes held, spelled]
  refine Prod.ext (congrArg (fun loaded => some (Except.ok loaded)) ?_) ?_
  · rw [loadBytes_eq_outline, readLines_render legible, List.map_map]
    exact legible.outline_of_uncut uncut
  · -- No line is cut, so nothing is reported besides.
    have short : ∀ line ∈ byteLines (encode store.render), line.length ≤ limit := by
      intro line member
      rw [byteLines_render legible] at member
      obtain ⟨chars, there, rfl⟩ := List.mem_map.1 member
      exact fits.lines chars there
    have read : (byteLines (encode store.render)).map (readLine limit) = sectionLines store.dropEmpty.sections := by
      have lines := readLines_render legible limit
      rw [List.map_congr_left uncut, List.map_id'] at lines
      exact lines
    have events := congrArg Prod.snd (Loader.takeLines_of_fits {} 1 short)
    rw [read, legible.takeAll_events] at events
    exact events

end Written

/-- Every value that is found is found without the empty sections. -/
theorem Keyfile.get?_dropEmpty {store : Keyfile} {name key value : String} (found : store.get? name key = some value) :
    store.dropEmpty.get? name key = some value := by
  obtain ⟨part, within, inner⟩ := Option.bind_eq_some_iff.1 found
  obtain ⟨entry, there, -⟩ := Option.map_eq_some_iff.1 inner
  exact Option.bind_eq_some_iff.2 ⟨part, Keyfile.section?_dropEmpty within there, inner⟩

/-- A keyfile whose names, keys and values are legible and fit comes back from its text without its empty sections,
and of those of a name only the first is left, and of its entries of a key only the first. Its bytes come to the same
in whatever chunks they arrive, with a limit that a buffer may have. There is one warning for each section that is
dropped, and for each key that is dropped from one that stays, and nothing else is reported: the warnings and what is
left are as many as the sections that there were and the entries of those that stay. Every value that was found is still
found. -/
theorem load_render_eq_withFirsts {limit : Nat} {store : Keyfile} (legible : store.dropEmpty.Legible)
    (fits : store.dropEmpty.Fits limit) :
    Keyfile.loadText limit store.render = (store.dropEmpty.withFirsts, store.dropEmpty.repetitions) ∧
      (limit ≤ Keyfile.greatestCapacity → ∀ chunks : List (List UInt8), chunks.flatten = encode store.render →
        Keyfile.load limit ⟨chunks, none⟩ = (some (.ok store.dropEmpty.withFirsts), store.dropEmpty.repetitions)) ∧
      (∀ event ∈ store.dropEmpty.repetitions, event.level = .warn) ∧
      store.dropEmpty.repetitions.length + store.dropEmpty.withFirsts.sections.length +
          (store.dropEmpty.withFirsts.sections.flatMap Section.entries).length =
        store.dropEmpty.sections.length +
          ((firsts Section.sameTitle store.dropEmpty.sections).flatMap Section.entries).length ∧
      ∀ name key value, store.get? name key = some value →
        (Keyfile.ofText limit store.render).get? name key = some value := by
  refine ⟨loadText_render legible fits, fun held chunks spelled => load_render legible fits held spelled,
    fun event member => Keyfile.level_of_mem_repetitions member, store.dropEmpty.length_repetitions,
    fun name key value found => ?_⟩
  -- No look-up meets an empty section or a repetition first.
  rw [Keyfile.ofText, loadText_render legible fits, Keyfile.get?_withFirsts]
  exact Keyfile.get?_dropEmpty found

/-- An empty section hides none of its name, of two others the first stays, and of its keys those that are new. -/
theorem load_render_doubled :
    Keyfile.load 4 ⟨[encode "[a]\nk=v", encode "\nK=w\n\n[A]\nm=x\n"], none⟩ =
      (some (.ok ⟨[⟨"a", [⟨"k", "v"⟩]⟩]⟩), [.duplicateKey 3 "K" "a", .duplicateSection 5 "A"]) :=
  (@load_render_eq_withFirsts 4 ⟨[⟨"A", []⟩, ⟨"a", [⟨"k", "v"⟩, ⟨"K", "w"⟩]⟩, ⟨"A", [⟨"m", "x"⟩]⟩]⟩
    (by decide) (by decide)).2.1 (by decide) [encode "[a]\nk=v", encode "\nK=w\n\n[A]\nm=x\n"] (by decide)

end ConfigStore
