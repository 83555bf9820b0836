import ConfigStore.Proofs.FirstMatch
import ConfigStore.Proofs.Keyfile.Reload
import ConfigStore.Proofs.Keyfile.Shortened
import ConfigStore.Proofs.Keyfile.Source

/-! What a keyfile comes back as when its text is loaded: itself without its empty sections, if the format carries
it and its lines fit. What was loaded is always carried, but its lines need not fit again. -/

namespace ConfigStore

open Utf8

/-- An empty line at the end says nothing. -/
theorem outline_append_void (lines : List Line) : outline (lines ++ [.void]) = outline lines := by
  rw [outline, blocks_append_void, List.append_nil]
  rfl

/-- A text of unbroken lines comes to what its lines make up. -/
theorem ofText_render {store : Keyfile} (carried : store.dropEmpty.Carried) (limit : Nat) :
    Keyfile.ofText limit store.render =
      outline ((sectionLines store.dropEmpty.sections).map fun line => Line.ofChars (takeBytes limit line)) := by
  rw [ofText_eq_outline, textLines_render carried.legible, List.map_append, List.map_append, List.map_map]
  exact outline_append_void _

/-- The bytes of a text of unbroken lines come to what its lines make up. -/
theorem loadBytes_render {store : Keyfile} (carried : store.dropEmpty.Carried) (limit : Nat) :
    (Keyfile.loadBytes limit (encode store.render)).1 =
      outline ((sectionLines store.dropEmpty.sections).map fun line => Line.ofChars (cutChars limit line)) := by
  rw [loadBytes_eq_outline, readLines_render carried.legible, List.map_map]
  rfl

/-- Whatever is loaded from bytes is carried. -/
theorem loadBytes_carried (limit : Nat) (bytes : List UInt8) : (Keyfile.loadBytes limit bytes).1.Carried := by
  rw [loadBytes_eq_outline]
  exact outline_carried (readLines_unbroken limit bytes)

/-- A keyfile that is carried is carried without its empty sections. -/
theorem Keyfile.Carried.dropEmpty {store : Keyfile} (carried : store.Carried) : store.dropEmpty.Carried :=
  ⟨fun part member => carried.sections part (List.mem_filter.1 member).1, carried.titles.filter _⟩

/-- A section in which a key is found is found without the empty sections. -/
theorem Keyfile.section?_dropEmpty {store : Keyfile} {name key : String} {part : Section} {entry : Entry}
    (within : store.section? name = some part) (there : part.find? key = some entry) :
    store.dropEmpty.section? name = some part := by
  -- It holds an entry, so it is not empty.
  have filled : (!part.entries.isEmpty) = true := by
    simpa using List.ne_nil_of_mem (List.mem_of_find?_eq_some there)
  exact find?_filter_of_pass within filled

/-- Cutting lines between bytes takes none for another. -/
theorem Section.Carried.readBy {part : Section} (carried : part.Carried) (limit : Nat) :
    part.ReadBy fun line => Line.ofChars (cutChars limit line) :=
  ⟨carried.shortened (shortened_cutChars limit _),
    fun entry member => (carried.entries entry member).shortened (shortened_cutChars limit _)⟩

/-- Each line of a keyfile that is legible is read as the header or entry that it was written for. -/
theorem Keyfile.Legible.blocks_spacedLines {store : Keyfile} (legible : store.Legible) :
    blocks ((spacedLines store.sections).map Line.ofChars) = store.sections := by
  have headers : ∀ part ∈ store.sections, Line.ofChars part.header = .header part.name := fun part member =>
    Line.ofChars_eq_header_iff.2 (legible part member).headerLine
  have entries : ∀ part ∈ store.sections, ∀ entry ∈ part.entries,
      Line.ofChars entry.line = .entry entry.key entry.value := fun part member entry there =>
    Line.ofChars_eq_entry_iff.2 ((legible part member).entries entry there).entryLine
  have known : ∀ part ∈ store.sections, part.ReadBy Line.ofChars := fun part member =>
    ⟨.inl (headers part member), fun entry there => .inl ⟨entry.value, entries part member entry there⟩⟩
  rw [Section.blocks_spacedLines rfl known headers]
  -- No section is changed by reading it back.
  refine (List.map_congr_left fun part member => ?_).trans (List.map_id _)
  refine congrArg (Section.mk part.name) (filterMap_eq_self_iff.2 fun entry there => ?_)
  rw [entries part member entry there]
  rfl

/-- Lines that are legible and not cut make up the keyfile, without what comes twice. -/
theorem Keyfile.Legible.outline_of_uncut {store : Keyfile} (legible : store.Legible) {cut : List Char → List Char}
    (uncut : ∀ line ∈ sectionLines store.sections, cut line = line) :
    outline ((sectionLines store.sections).map fun line => Line.ofChars (cut line)) = store.withFirsts := by
  have same : ((sectionLines store.sections).map fun line => Line.ofChars (cut line)) =
      (sectionLines store.sections).map Line.ofChars :=
    List.map_congr_left fun line member => congrArg Line.ofChars (uncut line member)
  rw [same, outline, Section.blocks_sectionLines rfl, legible.blocks_spacedLines]
  rfl

/-- Lines that are carried and not cut make up the keyfile. -/
theorem outline_of_uncut {store : Keyfile} (carried : store.Carried) {cut : List Char → List Char}
    (uncut : ∀ line ∈ sectionLines store.sections, cut line = line) :
    outline ((sectionLines store.sections).map fun line => Line.ofChars (cut line)) = store :=
  (carried.legible.outline_of_uncut uncut).trans carried.withFirsts_eq

/-- The lines of a keyfile that fits fit. -/
theorem Keyfile.Fits.lines {limit : Nat} {store : Keyfile} (fits : store.Fits limit) :
    ∀ line ∈ sectionLines store.sections, (encodeChars line).length ≤ limit := by
  -- Every line is empty, a header or that of an entry.
  intro line member
  rcases mem_sectionLines member with rfl | ⟨part, there, rfl | ⟨entry, place, rfl⟩⟩
  · exact Nat.zero_le limit
  · rw [Section.length_header]
    exact (fits part there).header
  · rw [Entry.length_line]
    exact (fits part there).entries entry place

/-- A keyfile comes back from its text without its empty sections exactly when the others are carried and fit, and
then its bytes come to the same in whatever chunks they arrive, with a limit that a buffer may have. -/
theorem ofText_render_eq_dropEmpty_iff (limit : Nat) (store : Keyfile) :
    (Keyfile.ofText limit store.render = store.dropEmpty ↔ store.dropEmpty.Carried ∧ store.dropEmpty.Fits limit) ∧
      (store.dropEmpty.Carried → store.dropEmpty.Fits limit → limit ≤ Keyfile.greatestCapacity →
        ∀ chunks : List (List UInt8), chunks.flatten = encode store.render →
          (Keyfile.load limit ⟨chunks, none⟩).1 = some (.ok (Keyfile.ofText limit store.render))) := by
  -- Uncut lines come back, and what comes back is carried and fits.
  have back : store.dropEmpty.Carried → store.dropEmpty.Fits limit →
      Keyfile.ofText limit store.render = store.dropEmpty := by
    intro carried fits
    rw [ofText_render carried]
    exact outline_of_uncut carried fun line member => takeBytes_of_fits (fits.lines line member)
  refine ⟨⟨fun same => ?_, fun ⟨carried, fits⟩ => back carried fits⟩, fun carried fits held chunks written => ?_⟩
  · -- Whatever comes from a text is carried and fits.
    rw [← same, ofText_eq_outline]
    refine ⟨outline_carried (textLines_unbroken limit _), outline_fits fun line member => ?_⟩
    obtain ⟨piece, -, rfl⟩ := List.mem_map.1 member
    exact length_takeBytes limit piece
  · rw [Keyfile.load_eq_loadBytes held, written, loadBytes_render carried, back carried fits,
      outline_of_uncut carried fun line member => cutChars_of_fits (fits.lines line member)]

/-- A line of exactly so many bytes comes back. -/
theorem ofText_render_four :
    (Keyfile.load 4 ⟨[encode "[a]\n", encode "k=vw\n"], none⟩).1 =
      some (.ok (Keyfile.ofText 4 (Keyfile.render ⟨[⟨"b", []⟩, ⟨"a", [⟨"k", "vw"⟩]⟩]⟩))) :=
  (ofText_render_eq_dropEmpty_iff 4 ⟨[⟨"b", []⟩, ⟨"a", [⟨"k", "vw"⟩]⟩]⟩).2 (by decide) (by decide) (by decide)
    [encode "[a]\n", encode "k=vw\n"] (by decide)

/-- With a limit that no buffer may have, a keyfile that is carried and fits comes back from its text, and its bytes have
no result. -/
theorem load_render_unbuffered :
    (Keyfile.mk [⟨"a", [⟨"k", "v"⟩]⟩]).dropEmpty.Carried ∧
      (Keyfile.mk [⟨"a", [⟨"k", "v"⟩]⟩]).dropEmpty.Fits (2 ^ 63) ∧
      (Keyfile.load (2 ^ 63) ⟨[encode (Keyfile.render ⟨[⟨"a", [⟨"k", "v"⟩]⟩]⟩)], none⟩).1 ≠
        some (.ok (Keyfile.ofText (2 ^ 63) (Keyfile.render ⟨[⟨"a", [⟨"k", "v"⟩]⟩]⟩))) := by
  refine ⟨by decide, by decide, fun loaded => ?_⟩
  have held := Keyfile.le_of_load loaded
  exact absurd held (by decide)

/-- What was loaded comes back from its bytes exactly when its lines survive. -/
theorem loadBytes_render_eq_iff {store : Keyfile} (carried : store.dropEmpty.Carried) (limit : Nat) :
    (Keyfile.loadBytes limit (encode store.render)).1 = store.dropEmpty ↔ store.dropEmpty.Survives limit := by
  -- The keyfile comes back exactly when each of its lines is read as it was written.
  rw [loadBytes_render carried,
    outline_eq_iff rfl carried fun part member => (carried.sections part member).readBy limit]
  constructor
  · intro kept part member
    obtain ⟨header, entries⟩ := kept part member
    have here := carried.sections part member
    exact ⟨(here.cutChars_header_iff limit).1 header,
      fun entry there => ((here.entries entry there).cutChars_line_iff limit).1 (entries entry there)⟩
  · intro survives part member
    have here := carried.sections part member
    exact ⟨(here.cutChars_header_iff limit).2 (survives part member).header, fun entry there =>
      ((here.entries entry there).cutChars_line_iff limit).2 ((survives part member).entries entry there)⟩

/-- A cut leaves the lines of a text as they were read. -/
theorem readLines_encode_uncut (limit : Nat) (text : String) :
    ∀ line ∈ readLines limit (encode text), cutChars limit line = line := by
  -- Cutting a second time to the same limit does nothing.
  intro line member
  obtain ⟨piece, there, rfl⟩ := List.mem_map.1 member
  have place := mem_separate_of_mem_byteLines there
  rw [encode, ← encodeChars, separate_encodeChars] at place
  obtain ⟨chars, -, rfl⟩ := List.mem_map.1 place
  rw [decode_take_encodeChars, cutChars_cutChars]

/-- What was loaded comes back when it is written and loaded again, without its empty sections, exactly when its
lines survive. The lines of a text always do. -/
theorem load_render_eq_dropEmpty_iff {limit : Nat} {chunks again : List (List UInt8)} {store : Keyfile}
    (loaded : (Keyfile.load limit ⟨chunks, none⟩).1 = some (.ok store)) (written : again.flatten = encode store.render) :
    ((Keyfile.load limit ⟨again, none⟩).1 = some (.ok store.dropEmpty) ↔ store.dropEmpty.Survives limit) ∧
      ∀ text, chunks.flatten = encode text → store.dropEmpty.Survives limit := by
  -- What was loaded is carried, so its lines decide whether it comes back.
  have held := Keyfile.le_of_load loaded
  rw [Keyfile.load_eq_loadBytes held] at loaded
  obtain rfl := Except.ok.inj (Option.some.inj loaded)
  have carried := (loadBytes_carried limit chunks.flatten).dropEmpty
  refine ⟨?_, fun text spelled part member => ?_⟩
  · rw [Keyfile.load_eq_loadBytes held, written, Option.some.injEq, Except.ok.injEq, loadBytes_render_eq_iff carried]
  · have survives := outline_survives (readLines_encode_uncut limit text)
    rw [← loadBytes_eq_outline, ← spelled] at survives
    exact survives part (List.mem_filter.1 member).1

/-- A value of invalid bytes is loaded, and loaded again after it was written, in lines of four bytes. -/
theorem load_render_four :
    (Keyfile.load 4 ⟨[encode "[a]\nk=", [0xFF]], none⟩).1 =
        some (.ok ⟨[⟨"a", [⟨"k", String.ofList [replacement]⟩]⟩]⟩) ∧
      (Keyfile.load 4 ⟨[encode "[a]\nk=\uFFFD\n"], none⟩).1 =
        some (.ok ⟨[⟨"a", [⟨"k", String.ofList [replacement]⟩]⟩]⟩) := by
  -- The invalid byte is read as a replacement, whose three bytes do not fit behind the mark.
  have loaded : (Keyfile.load 4 ⟨[encode "[a]\nk=", [0xFF]], none⟩).1 =
      some (.ok ⟨[⟨"a", [⟨"k", String.ofList [replacement]⟩]⟩]⟩) := by
    rw [Keyfile.load_eq_loadBytes (by decide)]
    decide +kernel
  have written : [encode "[a]\nk=\uFFFD\n"].flatten =
      encode (Keyfile.render ⟨[⟨"a", [⟨"k", String.ofList [replacement]⟩]⟩]⟩) := by decide +kernel
  exact ⟨loaded, (load_render_eq_dropEmpty_iff loaded written).1.2 (by decide +kernel)⟩

/-- Two replacements need more bytes than the bytes that they stand for, so a value of invalid bytes that fits is
cut when it is loaded again. -/
theorem load_render_ne_dropEmpty :
    ∃ store : Keyfile, (Keyfile.load 4 ⟨[encode "[a]\nk=", [0xFF, 0xFF]], none⟩).1 = some (.ok store) ∧
      (Keyfile.load 4 ⟨[encode store.render], none⟩).1 ≠ some (.ok store.dropEmpty) := by
  refine ⟨⟨[⟨"a", [⟨"k", String.ofList [replacement, replacement]⟩]⟩]⟩, ?_⟩
  have held : 4 ≤ Keyfile.greatestCapacity := by decide
  simp only [Keyfile.load_eq_loadBytes held]
  decide +kernel

end ConfigStore
