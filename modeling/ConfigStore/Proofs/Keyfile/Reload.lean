import ConfigStore.Proofs.Keyfile.Writer

/-! Reading the lines of sections again when some lines are lost and some values come back changed. A section
whose header is lost leaves its entries to the one before it, and those come behind what was there. -/

namespace ConfigStore

/-- A list is left as it is by a map that is partial when each of its items is. -/
theorem filterMap_eq_self_iff {α : Type} {change : α → Option α} {items : List α} :
    items.filterMap change = items ↔ ∀ item ∈ items, change item = some item := by
  -- The first item stays and so do the others, or the list gets shorter.
  induction items with
  | nil => simp
  | cons item rest ih =>
    rw [List.forall_mem_cons, ← ih, List.filterMap_cons]
    constructor
    · intro same
      split at same
      · -- Without its first item the list would be too short.
        have size := List.length_filterMap_le change rest
        rw [same, List.length_cons] at size
        omega
      · next other found =>
        obtain ⟨rfl, behind⟩ := List.cons.inj same
        exact ⟨found, behind⟩
    · rintro ⟨found, behind⟩
      rw [found, behind]

namespace Line

/-- The name in a header. -/
def name? : Line → Option String
  | .header name => some name
  | _ => none

/-- The entry on a line. -/
def setting? : Line → Option Entry
  | .entry key value => some ⟨key, value⟩
  | _ => none

end Line

/-- There is a section for each header. -/
theorem map_name_blocks (lines : List Line) : (blocks lines).map Section.name = lines.filterMap Line.name? := by
  -- Only headers add a section, and each adds one.
  induction lines with
  | nil => rfl
  | cons line rest ih =>
    cases line with
    | header name => exact congrArg (List.cons name) ih
    | entry key value => exact ih
    | void => exact ih

/-- Without headers, there are only entries. -/
theorem entriesBelow_of_no_name {lines : List Line} (nameless : ∀ line ∈ lines, line.name? = .none) (more : List Line) :
    entriesBelow (lines ++ more) = lines.filterMap Line.setting? ++ entriesBelow more ∧
      blocks (lines ++ more) = blocks more := by
  -- Each line in front adds an entry or nothing.
  induction lines with
  | nil => exact ⟨rfl, rfl⟩
  | cons line rest ih =>
    obtain ⟨here, behind⟩ := List.forall_mem_cons.1 nameless
    obtain ⟨entries, same⟩ := ih behind
    cases line with
    | header name => cases here
    | entry key value => exact ⟨congrArg (List.cons _) entries, same⟩
    | void => exact ⟨entries, same⟩

/-- A reading of an entry's line that may lose it or change its value, but takes it for nothing else. -/
def Entry.ReadBy (read : List Char → Line) (entry : Entry) : Prop :=
  (∃ value, read entry.line = .entry entry.key value) ∨ read entry.line = .void

/-- A reading of a section's lines that may lose some of them and change values, but takes none for another. -/
structure Section.ReadBy (read : List Char → Line) (part : Section) : Prop where
  /-- The header is read, or lost. -/
  header : read part.header = .header part.name ∨ read part.header = .void
  /-- Each entry is read with some value, or lost. -/
  entries : ∀ entry ∈ part.entries, entry.ReadBy read

namespace Section

variable {read : List Char → Line} {part : Section} {parts : List Section}

/-- The lines of a section's entries as they are read. -/
def entryLines (read : List Char → Line) (part : Section) : List Line :=
  part.entries.map fun entry => read entry.line

/-- A section with its entries as they are read. -/
def readBack (read : List Char → Line) (part : Section) : Section :=
  { part with entries := part.entries.filterMap fun entry => (read entry.line).setting? }

/-- The lines of entries have no headers among them. -/
theorem ReadBy.no_name (known : part.ReadBy read) : ∀ line ∈ part.entryLines read, line.name? = none := by
  -- The line of an entry is read as one with the same key or not at all.
  intro line member
  obtain ⟨entry, there, rfl⟩ := List.mem_map.1 member
  rcases known.entries entry there with ⟨value, found⟩ | lost
  · rw [found]
    rfl
  · rw [lost]
    rfl

/-- The entries on the lines of a section are the section's as they are read. -/
theorem filterMap_entryLines (read : List Char → Line) (part : Section) :
    (part.entryLines read).filterMap Line.setting? = (part.readBack read).entries := by
  rw [entryLines, List.filterMap_map]
  rfl

/-- The lines of sections as they are read. -/
theorem map_spacedLines (blank : read [] = .void) (part : Section) (rest : List Section) :
    (spacedLines (part :: rest)).map read =
      .void :: read part.header :: (part.entryLines read ++ (spacedLines rest).map read) := by
  simp [spacedLines, Section.lines, entryLines, blank]

/-- The empty line in front of sections says nothing. -/
theorem blocks_sectionLines (blank : read [] = .void) (parts : List Section) :
    blocks ((sectionLines parts).map read) = blocks ((spacedLines parts).map read) := by
  cases parts with
  | nil => rfl
  | cons part rest => simp [sectionLines, spacedLines, blank, blocks]

/-- The headers that are read are the names that are kept. -/
theorem map_name_blocks_spacedLines (blank : read [] = .void) (known : ∀ part ∈ parts, part.ReadBy read) :
    (blocks ((spacedLines parts).map read)).map name = parts.filterMap fun part => (read part.header).name? := by
  -- Of the lines of a section, only its first one may be a header.
  rw [map_name_blocks]
  induction parts with
  | nil => rfl
  | cons part rest ih =>
    obtain ⟨here, behind⟩ := List.forall_mem_cons.1 known
    have nameless : (part.entryLines read).filterMap Line.name? = [] := List.filterMap_eq_nil_iff.2 here.no_name
    rw [map_spacedLines blank, List.filterMap_cons_none rfl, List.filterMap_cons, List.filterMap_cons,
      List.filterMap_append, nameless, ih behind]
    rfl

/-- When all headers are read, each section gets its own entries. -/
theorem blocks_spacedLines (blank : read [] = .void) (known : ∀ part ∈ parts, part.ReadBy read)
    (kept : ∀ part ∈ parts, read part.header = .header part.name) :
    blocks ((spacedLines parts).map read) = parts.map (readBack read) := by
  induction parts with
  | nil => rfl
  | cons part rest ih =>
    obtain ⟨here, behind⟩ := List.forall_mem_cons.1 known
    obtain ⟨header, headers⟩ := List.forall_mem_cons.1 kept
    -- The next header ends the section.
    have ended : entriesBelow ((spacedLines rest).map read) = [] := by
      cases rest with
      | nil => rfl
      | cons next others =>
        rw [map_spacedLines blank, headers next (by simp)]
        rfl
    obtain ⟨entries, same⟩ := entriesBelow_of_no_name here.no_name ((spacedLines rest).map read)
    rw [map_spacedLines blank, header, blocks, blocks, entries, same, ended, ih behind headers, List.append_nil,
      filterMap_entryLines]
    rfl

/-- A section whose header is read is found, and its own entries come first in it. -/
theorem find?_blocks_spacedLines (blank : read [] = .void) {title : String} (known : ∀ part ∈ parts, part.ReadBy read)
    (found : parts.find? (hasName title) = some part) (kept : read part.header = .header part.name) :
    ∃ foreign, (blocks ((spacedLines parts).map read)).find? (hasName title) =
      some ⟨part.name, (part.readBack read).entries ++ foreign⟩ := by
  -- The sections in front of it have other names, if their headers are read at all.
  induction parts with
  | nil => cases found
  | cons first rest ih =>
    obtain ⟨here, behind⟩ := List.forall_mem_cons.1 known
    obtain ⟨entries, same⟩ := entriesBelow_of_no_name here.no_name ((spacedLines rest).map read)
    rw [filterMap_entryLines] at entries
    rw [List.find?_cons] at found
    rw [map_spacedLines blank, blocks]
    split at found
    · next match_ =>
      cases found
      rw [kept, blocks, entries]
      exact ⟨_, List.find?_cons_of_pos match_⟩
    · next other =>
      obtain ⟨foreign, later⟩ := ih behind found
      refine ⟨foreign, ?_⟩
      rcases here.header with header | lost
      · rw [header, blocks, same, List.find?_cons_of_neg (by rw [hasName] at other ⊢; simp [other]), later]
      · rw [lost, blocks, same, later]

end Section

section

variable {read : List Char → Line}

/-- An entry whose line is read is found among the entries that are read. -/
theorem find?_read_entries {entries : List Entry} (known : ∀ entry ∈ entries, entry.ReadBy read) {key : String}
    {entry : Entry} (found : entries.find? (Entry.hasKey key) = some entry)
    (kept : read entry.line = .entry entry.key entry.value) (foreign : List Entry) :
    ((entries.filterMap fun entry => (read entry.line).setting?) ++ foreign).find? (Entry.hasKey key) = some entry := by
  -- The entries in front of it have other keys, whatever becomes of their values.
  induction entries with
  | nil => cases found
  | cons first rest ih =>
    obtain ⟨here, behind⟩ := List.forall_mem_cons.1 known
    rw [List.find?_cons] at found
    split at found
    · next match_ =>
      cases found
      rw [List.filterMap_cons_some (b := entry) (by rw [kept]; rfl)]
      exact List.find?_cons_of_pos match_
    · next other =>
      have later := ih behind found
      rcases here with ⟨value, present⟩ | lost
      · rw [List.filterMap_cons_some (b := ⟨first.key, value⟩) (by rw [present]; rfl), List.cons_append,
          List.find?_cons_of_neg (by rw [Entry.hasKey] at other ⊢; simp [other]), later]
      · rw [List.filterMap_cons_none (by rw [lost]; rfl), later]

/-- A setting whose lines are both read comes back, whatever becomes of the others. -/
theorem outline_get?_of_read (blank : read [] = .void) {store : Keyfile}
    (known : ∀ part ∈ store.sections, part.ReadBy read) {name key : String} {part : Section} {entry : Entry}
    (within : store.section? name = some part) (found : part.find? key = some entry)
    (header : read part.header = .header part.name) (kept : read entry.line = .entry entry.key entry.value) :
    (outline ((sectionLines store.sections).map read)).get? name key = some entry.value := by
  -- The header opens the section, and no line above that of the key is read with the same key.
  obtain ⟨foreign, here⟩ := Section.find?_blocks_spacedLines blank known within header
  have own := find?_read_entries (known part (List.mem_of_find?_eq_some within)).entries found kept foreign
  rw [outline_get?, Section.blocks_sectionLines blank, here]
  exact congrArg (Option.map Entry.value) own

/-- Keys stay different when lines are lost or values are changed. -/
theorem pairwise_read_entries {entries : List Entry} (known : ∀ entry ∈ entries, entry.ReadBy read)
    (different : entries.Pairwise fun one other => one.sameKey other = false) :
    (entries.filterMap fun entry => (read entry.line).setting?).Pairwise
      fun one other => one.sameKey other = false := by
  -- Whatever is read of an entry has its key.
  have keys : ∀ entry ∈ entries, ∀ other, (read entry.line).setting? = some other → other.key = entry.key := by
    intro entry member other found
    rcases known entry member with ⟨value, present⟩ | lost
    · rw [present] at found
      cases found
      rfl
    · rw [lost] at found
      cases found
  refine List.pairwise_filterMap.2 (different.imp_of_mem ?_)
  intro one other first second apart oneRead foundOne otherRead foundOther
  rw [Entry.sameKey, keys one first oneRead foundOne, keys other second otherRead foundOther]
  exact apart

/-- Reading the lines of a keyfile gives back the keyfile exactly when each of its lines is read as it was
written. -/
theorem outline_eq_iff (blank : read [] = .void) {store : Keyfile} (carried : store.Carried)
    (known : ∀ part ∈ store.sections, part.ReadBy read) :
    outline ((sectionLines store.sections).map read) = store ↔
      ∀ part ∈ store.sections, read part.header = .header part.name ∧
        ∀ entry ∈ part.entries, read entry.line = .entry entry.key entry.value := by
  have names := Section.map_name_blocks_spacedLines blank known
  -- With all headers there, nothing is dropped as a repetition.
  have whole : (∀ part ∈ store.sections, read part.header = .header part.name) →
      outline ((sectionLines store.sections).map read) = ⟨store.sections.map (Section.readBack read)⟩ := by
    intro headers
    have titles : (store.sections.map (Section.readBack read)).Pairwise
        fun one other => one.sameTitle other = false := List.pairwise_map.2 carried.titles
    rw [outline, Section.blocks_sectionLines blank, Section.blocks_spacedLines blank known headers,
      firsts_of_pairwise titles, List.map_map]
    refine congrArg Keyfile.mk (List.map_congr_left fun part member => ?_)
    have keys := pairwise_read_entries (known part member).entries (carried.sections part member).keys
    exact congrArg (Section.mk part.name) (firsts_of_pairwise keys)
  constructor
  · intro same
    have headers : ∀ part ∈ store.sections, read part.header = .header part.name := by
      -- A lost header would leave too few sections.
      have count := congrArg (fun store => store.sections.length) same
      have fewer := congrArg List.length names
      rw [outline, Section.blocks_sectionLines blank] at count
      simp only [List.length_map] at count fewer
      have most : (firsts Section.sameTitle (blocks ((spacedLines store.sections).map read))).length ≤
          (blocks ((spacedLines store.sections).map read)).length := (firsts_sublist _).length_le
      have all := List.filterMap_length_eq_length.1
        (Nat.le_antisymm (List.length_filterMap_le _ _) (by omega) :
          (store.sections.filterMap fun part => (read part.header).name?).length = store.sections.length)
      intro part member
      have present := all part member
      rcases (known part member).header with header | lost
      · exact header
      · rw [lost] at present
        cases present
    rw [whole headers] at same
    have each := List.map_inj_left.1 ((congrArg Keyfile.sections same).trans (List.map_id _).symm)
    refine fun part member => ⟨headers part member, fun entry there => ?_⟩
    have found := filterMap_eq_self_iff.1 (congrArg Section.entries (each part member)) entry there
    rcases (known part member).entries entry there with ⟨value, present⟩ | lost
    · rw [present] at found ⊢
      rw [← Option.some.inj found]
    · rw [lost] at found
      cases found
  · intro kept
    rw [whole fun part member => (kept part member).1]
    refine congrArg Keyfile.mk ((List.map_congr_left fun part member => ?_).trans (List.map_id _))
    refine congrArg (Section.mk part.name) (filterMap_eq_self_iff.2 fun entry there => ?_)
    rw [(kept part member).2 entry there]
    rfl

end

end ConfigStore
