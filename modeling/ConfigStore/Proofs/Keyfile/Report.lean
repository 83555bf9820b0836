import ConfigStore.Proofs.Keyfile.Grammar
import ConfigStore.Proofs.Keyfile.Source

/-! What loading reports: each line that is cut, and each header and key that repeats an earlier one, in the order
of the lines. The chunks in which the bytes arrive leave no trace in it. -/

namespace ConfigStore

/-- The last header of lines opens a section, since no header before it has its name. -/
structure OpenedAt (lines : List (List Char)) (place : Nat) (name : String) : Prop where
  /-- The line is a header. -/
  here : HeaderAt lines place name
  /-- No header comes behind it. -/
  last : ∀ later > place, ∀ other, ¬HeaderAt lines later other
  /-- No header before it has its name. -/
  first : ∀ earlier < place, ∀ other, HeaderAt lines earlier other → sameName other name = false

/-- What is reported of the line at a place: that it was cut, that it is a header whose name an earlier header has,
or that it is an entry whose key an earlier entry of its section has. -/
inductive ReportAt (limit : Nat) (lines : List (List UInt8)) (texts : List (List Char)) (place : Nat) :
    Event → Prop where
  | cut {line : List UInt8} (here : lines[place]? = some line) (long : limit < line.length) :
    ReportAt limit lines texts place (.lineCut (place + 1) line.length limit)
  | header {name other : String} {earlier : Nat} (here : HeaderAt texts place name)
    (used : HeaderAt (texts.take place) earlier other) (same : sameName other name = true) :
    ReportAt limit lines texts place (.duplicateSection (place + 1) name)
  | key {key value name : String} {other : Entry} {top earlier : Nat} (here : EntryAt texts place ⟨key, value⟩)
    (inside : OpenedAt (texts.take place) top name) (below : top < earlier)
    (used : EntryAt (texts.take place) earlier other) (same : sameName other.key key = true) :
    ReportAt limit lines texts place (.duplicateKey (place + 1) key name)

/-- What a line repeats of the lines above it: the name of an earlier header, or a key of the section that is open. -/
def Line.repetition (above : List Line) (number : Nat) : Line → Option Event
  | .void => none
  | .header name =>
    if (blocks above).any (Section.hasName name) then some (.duplicateSection number name) else none
  | .entry key _ =>
    (blocks above).getLast?.bind fun part =>
      if (blocks above).dropLast.any (Section.hasName part.name) then none
      else if part.contains key then some (.duplicateKey number key part.name) else none

/-- A loader that has followed the lines above reports what a line repeats of them. -/
theorem Loader.Follows.take_events {loader : Loader} {above : List Line} (follows : loader.Follows above)
    (number : Nat) (line : Line) : (loader.take number line).2 = (line.repetition above number).toList := by
  cases line with
  | void => rfl
  | header name =>
    -- The loader knows a name exactly when a header above has it.
    simp only [Loader.take, Keyfile.pushSection?, follows.store, outline_contains, Line.repetition]
    cases (blocks above).any (Section.hasName name) with
    | true => rfl
    | false => rfl
  | entry key value =>
    have target := follows.target
    simp only [Loader.take, Line.repetition]
    cases open_ : loader.target with
    | nowhere =>
      rw [open_] at target
      rw [target]
      rfl
    | discard =>
      rw [open_] at target
      obtain ⟨front, part, shown, used⟩ := target
      simp only [shown, List.getLast?_concat, List.dropLast_concat, Option.bind_some, if_pos used]
      rfl
    | inside index =>
      rw [open_] at target
      obtain ⟨front, part, shown, fresh, rfl⟩ := target
      -- The open section is the last one, with the first entry of each key.
      have sections := outline_of_last shown
      rw [if_neg (ne_true_of_eq_false fresh)] at sections
      have here : loader.store.sectionAt? (firsts Section.sameTitle front).length = some part.withFirsts := by
        rw [follows.store]
        simp [Keyfile.sectionAt?, sections]
      have kept : part.withFirsts.contains key = part.contains key :=
        any_firsts (fun _ _ same passes => sameName_trans same passes) part.entries
      simp only [here, Section.insertNew?, kept, shown, List.getLast?_concat, List.dropLast_concat,
        Option.bind_some, if_neg (ne_true_of_eq_false fresh)]
      cases part.contains key with
      | true => rfl
      | false => rfl

/-- A header above says that a name is used. -/
theorem any_hasName_blocks_iff {lines : List (List Char)} {name : String} :
    (blocks (lines.map Line.ofChars)).any (Section.hasName name) = true ↔
      ∃ place other, HeaderAt lines place other ∧ sameName other name = true := by
  -- The blocks stand at the headers.
  rw [List.any_eq_true]
  constructor
  · intro found
    obtain ⟨part, member, same⟩ := found
    obtain ⟨place, here, -⟩ := ((blocks_inOrder lines).mem_iff part).1 member
    exact ⟨place, part.name, here, same⟩
  · intro found
    obtain ⟨place, other, here, same⟩ := found
    exact ⟨⟨other, _⟩, ((blocks_inOrder lines).mem_iff _).2 ⟨place, here, rfl⟩, same⟩

/-- An entry of the section that is open has a key when one of the lines behind the last header is such an entry. -/
theorem contains_last_iff {lines : List (List Char)} {top : Nat}
    (last : ∀ later > top, ∀ other, ¬HeaderAt lines later other) {key name : String} :
    (Section.mk name (entriesBelow ((lines.drop (top + 1)).map Line.ofChars))).contains key = true ↔
      ∃ place > top, ∃ other, EntryAt lines place other ∧ sameName other.key key = true := by
  -- Lines behind the header are counted from it on.
  have behind : ∀ place other, EntryAt (lines.drop (top + 1)) place other ↔ EntryAt lines (top + 1 + place) other := by
    intro place other
    simp only [EntryAt, List.getElem?_drop]
  have empty : ∀ place other, ¬HeaderAt (lines.drop (top + 1)) place other := by
    intro place other here
    apply last (top + 1 + place) (by omega) other
    simpa only [HeaderAt, List.getElem?_drop] using here
  rw [Section.contains, List.any_eq_true]
  constructor
  · intro found
    obtain ⟨other, member, same⟩ := found
    obtain ⟨place, here, -⟩ := ((entriesBelow_inOrder _).mem_iff other).1 member
    exact ⟨top + 1 + place, by omega, other, (behind place other).1 here, same⟩
  · intro found
    obtain ⟨place, below, other, here, same⟩ := found
    obtain ⟨past, rfl⟩ := Nat.exists_eq_add_of_lt below
    rw [Nat.add_right_comm] at here
    exact ⟨other, ((entriesBelow_inOrder _).mem_iff other).2
      ⟨past, (behind past other).2 here, fun earlier _ => empty earlier⟩, same⟩

/-- The last block of lines stands at their last header, and opens a section if no block in front has its name. -/
theorem exists_openedAt {lines : List (List Char)} {front : List Section} {part : Section}
    (shown : blocks (lines.map Line.ofChars) = front ++ [part])
    (fresh : front.any (Section.hasName part.name) = false) :
    ∃ top, OpenedAt lines top part.name ∧ part.entries = entriesBelow ((lines.drop (top + 1)).map Line.ofChars) := by
  obtain ⟨top, ⟨here, entries⟩, last, before⟩ := (shown ▸ blocks_inOrder lines).last
  refine ⟨top, ⟨here, fun later after other there => last later after ⟨other, _⟩ ⟨there, rfl⟩, ?_⟩, entries⟩
  intro earlier above other there
  -- An earlier header has a block of its own in front.
  have member := (before ⟨other, _⟩).2 ⟨earlier, above, there, rfl⟩
  rw [← Bool.not_eq_true, List.any_eq_true] at fresh
  rw [← Bool.not_eq_true]
  exact fun same => fresh ⟨_, member, same⟩

/-- The header that opens a section begins the last block. -/
theorem OpenedAt.blocks_eq {lines : List (List Char)} {top : Nat} {name : String} (opened : OpenedAt lines top name) :
    ∃ front, front.any (Section.hasName name) = false ∧ blocks (lines.map Line.ofChars) =
      front ++ [⟨name, entriesBelow ((lines.drop (top + 1)).map Line.ofChars)⟩] := by
  -- There is a block for the header, so there is a last one.
  have member := ((blocks_inOrder lines).mem_iff ⟨name, _⟩).2 ⟨top, opened.here, rfl⟩
  obtain ⟨front, part, shown⟩ := (List.eq_nil_or_concat _).resolve_left (List.ne_nil_of_mem member)
  rw [List.concat_eq_append] at shown
  obtain ⟨place, ⟨here, entries⟩, last, before⟩ := (shown ▸ blocks_inOrder lines).last
  -- It stands at the same place, since no header comes behind either.
  have same : place = top := by
    rcases Nat.lt_trichotomy place top with less | same | more
    · exact absurd ⟨opened.here, rfl⟩ (last top less ⟨name, _⟩)
    · exact same
    · exact absurd here (opened.last place more part.name)
  subst same
  obtain ⟨title, inner⟩ := part
  obtain rfl : title = name := here.unique opened.here
  simp only at entries
  refine ⟨front, ?_, by rw [shown, entries]⟩
  rw [← Bool.not_eq_true, List.any_eq_true]
  intro found
  obtain ⟨other, there, used⟩ := found
  obtain ⟨earlier, above, stood, -⟩ := (before other).1 there
  exact absurd used (by simpa [Section.hasName] using opened.first earlier above other.name stood)

/-- A line repeats what the lines above say in the same form. -/
theorem repetition_iff {above : List (List Char)} {number : Nat} {line : List Char} {event : Event} :
    (Line.ofChars line).repetition (above.map Line.ofChars) number = some event ↔
      (∃ name place other, HeaderLine line name ∧ HeaderAt above place other ∧ sameName other name = true ∧
        event = .duplicateSection number name) ∨
      ∃ key value name top place other, EntryLine line ⟨key, value⟩ ∧ OpenedAt above top name ∧ top < place ∧
        EntryAt above place other ∧ sameName other.key key = true ∧ event = .duplicateKey number key name := by
  simp only [← Line.ofChars_eq_header_iff, ← Line.ofChars_eq_entry_iff]
  cases Line.ofChars line with
  | void => simp [Line.repetition]
  | header name =>
    simp only [Line.repetition, Option.ite_none_right_eq_some, any_hasName_blocks_iff, Option.some.injEq]
    constructor
    · rintro ⟨⟨place, other, used, same⟩, rfl⟩
      exact .inl ⟨name, place, other, rfl, used, same, rfl⟩
    · rintro (⟨_, place, other, told, used, same, rfl⟩ | ⟨_, _, _, _, _, _, told, _⟩)
      · cases told
        exact ⟨⟨place, other, used, same⟩, rfl⟩
      · cases told
  | entry key value =>
    constructor
    · intro told
      simp only [Line.repetition, Option.bind_eq_some_iff, Option.ite_none_right_eq_some,
        Option.ite_none_left_eq_some, Option.some.injEq] at told
      obtain ⟨part, final, fresh, known, rfl⟩ := told
      obtain ⟨front, shown⟩ := List.getLast?_eq_some_iff.1 final
      rw [shown, List.dropLast_concat, Bool.not_eq_true] at fresh
      obtain ⟨top, opened, entries⟩ := exists_openedAt shown fresh
      rw [show part = ⟨part.name, part.entries⟩ from rfl, entries, contains_last_iff opened.last] at known
      obtain ⟨place, below, other, used, same⟩ := known
      exact .inr ⟨key, value, part.name, top, place, other, rfl, opened, below, used, same, rfl⟩
    · rintro (⟨_, _, _, told, _⟩ | ⟨_, _, name, top, place, other, told, opened, below, used, same, rfl⟩)
      · cases told
      · cases told
        obtain ⟨front, fresh, shown⟩ := opened.blocks_eq
        simp only [Line.repetition, shown, List.getLast?_concat, List.dropLast_concat, Option.bind_some,
          if_neg (ne_true_of_eq_false fresh)]
        rw [if_pos ((contains_last_iff opened.last).2 ⟨place, below, other, used, same⟩)]

/-- A line has two slots in a report: in the first it is said that it was cut, and in the second what it repeats. -/
def EventLevel.slot (place : Nat) : EventLevel → Nat
  | .debug => 2 * place
  | _ => 2 * place + 1

/-- What is in a slot of the report on lines. -/
def Reported (limit : Nat) (lines : List (List UInt8)) (texts : List (List Char)) (slot : Nat) (event : Event) : Prop :=
  ∃ place, ReportAt limit lines texts place event ∧ slot = event.level.slot place

section Slots

variable {limit place : Nat} {lines : List (List UInt8)} {texts : List (List Char)} {event : Event}

/-- The first slot of a line is for its cut. -/
theorem reported_cut_iff : Reported limit lines texts (2 * place) event ↔
    ∃ line, lines[place]? = some line ∧ limit < line.length ∧ event = .lineCut (place + 1) line.length limit := by
  constructor
  · intro found
    obtain ⟨other, report, slot⟩ := found
    cases report with
    | cut here long =>
      obtain rfl : place = other := Nat.eq_of_mul_eq_mul_left (by decide) slot
      exact ⟨_, here, long, rfl⟩
    | header => simp [Event.level, EventLevel.slot] at slot; omega
    | key => simp [Event.level, EventLevel.slot] at slot; omega
  · rintro ⟨line, here, long, rfl⟩
    exact ⟨place, .cut here long, rfl⟩

/-- The second slot of a line is for what it repeats. -/
theorem reported_repetition_iff : Reported limit lines texts (2 * place + 1) event ↔
    ∃ text, texts[place]? = some text ∧
      (Line.ofChars text).repetition ((texts.take place).map Line.ofChars) (place + 1) = some event := by
  simp only [repetition_iff]
  constructor
  · intro found
    obtain ⟨other, report, slot⟩ := found
    cases report with
    | cut => simp [Event.level, EventLevel.slot] at slot; omega
    | header here used same =>
      obtain rfl : place = other := Nat.eq_of_mul_eq_mul_left (by decide) (Nat.succ.inj slot)
      obtain ⟨text, found, header⟩ := here
      exact ⟨text, found, .inl ⟨_, _, _, header, used, same, rfl⟩⟩
    | key here inside below used same =>
      obtain rfl : place = other := Nat.eq_of_mul_eq_mul_left (by decide) (Nat.succ.inj slot)
      obtain ⟨text, found, spelled⟩ := here
      exact ⟨text, found, .inr ⟨_, _, _, _, _, _, spelled, inside, below, used, same, rfl⟩⟩
  · rintro ⟨text, found, ⟨name, earlier, other, header, used, same, rfl⟩ |
      ⟨key, value, name, top, earlier, other, spelled, inside, below, used, same, rfl⟩⟩
    · exact ⟨place, .header ⟨text, found, header⟩ used same, rfl⟩
    · exact ⟨place, .key ⟨text, found, spelled⟩ inside below used same, rfl⟩

/-- Only lines have slots. -/
theorem Reported.slot_lt {slot : Nat} (reported : Reported limit lines texts slot event)
    (same : texts.length = lines.length) : slot < 2 * lines.length := by
  obtain ⟨place, report, rfl⟩ := reported
  -- Whatever is reported, there is a line at its place.
  have within : place < lines.length := by
    cases report with
    | cut here long => exact (List.getElem?_eq_some_iff.1 here).1
    | header here used same_ =>
      obtain ⟨text, found, -⟩ := here
      exact same ▸ (List.getElem?_eq_some_iff.1 found).1
    | key here inside below used same_ =>
      obtain ⟨text, found, -⟩ := here
      exact same ▸ (List.getElem?_eq_some_iff.1 found).1
  have last : event.level.slot place ≤ 2 * place + 1 := by
    unfold EventLevel.slot
    split <;> omega
  omega

end Slots

/-- A line of bytes as it is read. -/
def readLine (limit : Nat) (line : List UInt8) : List Char :=
  Utf8.decode (line.take limit)

/-- What is reported while lines are taken is the report on them, counted behind the lines above. -/
theorem Loader.Follows.takeLines_inOrder {loader : Loader} {limit : Nat} {front : List (List UInt8)}
    (follows : loader.Follows ((front.map (readLine limit)).map Line.ofChars)) (rest : List (List UInt8)) :
    InOrder (fun slot event =>
        Reported limit (front ++ rest) ((front ++ rest).map (readLine limit)) (2 * front.length + slot) event)
      (loader.takeLines limit (front.length + 1) rest).2 := by
  induction rest generalizing front loader with
  | nil =>
    -- Behind the last line there is no line to report on.
    apply InOrder.nothing
    intro slot event reported
    have bound := reported.slot_lt (List.length_map _)
    rw [List.append_nil] at bound
    omega
  | cons line rest ih =>
    have next := follows.take (front.length + 1) (Line.ofChars (readLine limit line))
    have behind := @ih _ (front ++ [line]) (by simpa using next)
    have own : (front ++ line :: rest)[front.length]? = some line := by simp
    have above : ((front ++ line :: rest).map (readLine limit)).take front.length = front.map (readLine limit) := by
      simp
    -- The line has its two slots in front of those of the rest.
    have told : (loader.takeLines limit (front.length + 1) (line :: rest)).2 =
        (if limit < line.length then some (Event.lineCut (front.length + 1) line.length limit) else none).toList ++
          (((Line.ofChars (readLine limit line)).repetition ((front.map (readLine limit)).map Line.ofChars)
            (front.length + 1)).toList ++
          ((loader.take (front.length + 1) (Line.ofChars (readLine limit line))).1.takeLines limit
            (front.length + 1 + 1) rest).2) := by
      rw [← follows.take_events, ← List.append_assoc]
      simp only [Loader.takeLines, Loader.takeKept]
      split
      · rfl
      · rfl
    rw [told]
    apply InOrder.prepend
    · apply InOrder.prepend
      · simp only [List.append_assoc, List.singleton_append, List.length_append, List.length_singleton] at behind
        apply behind.congr
        intro slot event
        rw [show 2 * (front.length + 1) + slot = 2 * front.length + (slot + 1 + 1) by omega]
      · intro event
        rw [reported_repetition_iff, above, List.getElem?_map, own]
        simp
    · intro event
      rw [Nat.add_zero, reported_cut_iff, own]
      simp [eq_comm]

/-- What a line gives rise to is a warning. -/
theorem Loader.level_of_mem_take {loader : Loader} {number : Nat} {line : Line} {event : Event}
    (member : event ∈ (loader.take number line).2) : event.level = .warn := by
  -- Of the ways through a line, only the two that drop something report it.
  cases line with
  | void => cases member
  | header name =>
    simp only [Loader.take] at member
    split at member
    · cases member
    · rw [List.mem_singleton.1 member]
      rfl
  | entry key value =>
    simp only [Loader.take] at member
    split at member
    · cases member
    · cases member
    · split at member
      · cases member
      · split at member
        · rw [List.mem_singleton.1 member]
          rfl
        · cases member

/-- Taking lines of bytes is taking them as they are read, and all that is reported besides is not a warning. -/
theorem Loader.takeLines_eq_takeAll (loader : Loader) (limit number : Nat) (lines : List (List UInt8)) :
    (loader.takeLines limit number lines).1 = (loader.takeAll number (lines.map (readLine limit))).1 ∧
      (loader.takeLines limit number lines).2.filter (·.level == .warn) =
        (loader.takeAll number (lines.map (readLine limit))).2 := by
  induction lines generalizing loader number with
  | nil => exact ⟨rfl, rfl⟩
  | cons line rest ih =>
    obtain ⟨same, warnings⟩ := ih (loader.take number (Line.ofChars (readLine limit line))).1 (number + 1)
    -- The cut is no warning, and all that the line itself gives rise to is.
    have cuts : (if limit < line.length then [Event.lineCut number line.length limit] else []).filter
        (·.level == .warn) = [] := by
      split
      · rfl
      · rfl
    have own : (loader.take number (Line.ofChars (readLine limit line))).2.filter (·.level == .warn) =
        (loader.take number (Line.ofChars (readLine limit line))).2 := by
      apply List.filter_eq_self.2
      intro event member
      rw [level_of_mem_take member]
      rfl
    refine ⟨same, ?_⟩
    simp only [takeLines, takeKept, takeAll, List.map_cons, List.filter_append]
    rw [cuts, List.nil_append]
    exact congrArg₂ (· ++ ·) own warnings

/-- However bytes arrive in chunks, what is loaded with a limit that a buffer may have is what their lines come to:
separated at newlines, cut to the limit, decoded, and taken by number. It is reported exactly which lines were cut, with
their whole length, and which headers and keys repeat others, line by line and the cut of a line first. -/
theorem load_eq_takeAll {limit : Nat} (held : limit ≤ Keyfile.greatestCapacity) (chunks : List (List UInt8)) :
    ∃ events, Keyfile.load limit ⟨chunks, none⟩ =
        (some (.ok (Loader.takeAll {} 1 (readLines limit chunks.flatten)).1.store), events) ∧
      events.filter (·.level == .warn) = (Loader.takeAll {} 1 (readLines limit chunks.flatten)).2 ∧
      InOrder (Reported limit (byteLines chunks.flatten) (readLines limit chunks.flatten)) events := by
  obtain ⟨same, warnings⟩ := Loader.takeLines_eq_takeAll {} limit 1 (byteLines chunks.flatten)
  refine ⟨(Keyfile.loadBytes limit chunks.flatten).2, ?_, warnings, ?_⟩
  · rw [Keyfile.load_eq_loadBytes held]
    exact Prod.ext (congrArg (fun loader => some (Except.ok loader.store)) same) rfl
  · -- A fresh loader has followed no lines, so all slots are those of the lines.
    have order := @Loader.Follows.takeLines_inOrder {} limit [] Loader.Follows.nothing (byteLines chunks.flatten)
    apply order.congr
    intro slot event
    rw [List.length_nil, Nat.mul_zero, Nat.zero_add]
    rfl

/-- A line of one byte more than the limit is cut, and a line of exactly as many is not, wherever the chunks end. -/
theorem load_eq_takeAll_three :
    ∃ events, Keyfile.load 3 ⟨[Utf8.encode "[a]\nk", Utf8.encode "=vw", Utf8.encode "\nl=x"], none⟩ =
        (some (.ok ⟨[⟨"a", [⟨"k", "v"⟩, ⟨"l", "x"⟩]⟩]⟩), events) ∧
      InOrder (Reported 3 (byteLines (Utf8.encode "[a]\nk=vw\nl=x")) (readLines 3 (Utf8.encode "[a]\nk=vw\nl=x"))) events := by
  obtain ⟨events, loaded, -, order⟩ := load_eq_takeAll (by decide : 3 ≤ Keyfile.greatestCapacity)
    [Utf8.encode "[a]\nk", Utf8.encode "=vw", Utf8.encode "\nl=x"]
  refine ⟨events, loaded.trans ?_, order⟩
  have store : (Loader.takeAll {} 1 (readLines 3 (Utf8.encode "[a]\nk=vw\nl=x"))).1.store =
      ⟨[⟨"a", [⟨"k", "v"⟩, ⟨"l", "x"⟩]⟩]⟩ := by decide +kernel
  exact congrArg (fun store => (some (Except.ok store), events)) store

/-- With a limit that no buffer may have, there is no result, not even of nothing. -/
theorem load_unbuffered : ¬∀ (limit : Nat) (chunks : List (List UInt8)),
    (Keyfile.load limit ⟨chunks, none⟩).1 =
      some (.ok (Loader.takeAll {} 1 (readLines limit chunks.flatten)).1.store) := by
  intro loads
  have stopped : (Keyfile.load (2 ^ 63) ⟨[], none⟩).1 = none := by decide
  cases stopped.symm.trans (loads (2 ^ 63) [])

end ConfigStore
