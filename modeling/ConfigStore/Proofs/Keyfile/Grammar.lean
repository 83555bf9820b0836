import ConfigStore.Proofs.Keyfile.Line
import ConfigStore.Proofs.Keyfile.Outline

/-! A keyfile by the places of its lines: which lines begin sections, which lines are entries of a section, and
that nothing else of a text counts. -/

namespace ConfigStore

/-- Items stand at places, in the order of the places and without leaving any out. -/
def InOrder {α : Type} (stands : Nat → α → Prop) (items : List α) : Prop :=
  ∃ placed : List (Nat × α), placed.map Prod.snd = items ∧ placed.Pairwise (·.1 < ·.1) ∧
    ∀ place item, (place, item) ∈ placed ↔ stands place item

namespace InOrder

variable {α : Type} {stands : Nat → α → Prop} {items front : List α} {item : α}

/-- No two lists have the same items at the same places. -/
theorem unique {others : List α} (order : InOrder stands items) (same : InOrder stands others) : items = others := by
  -- Lists in strict order are told apart by what they hold.
  obtain ⟨placed, rfl, sorted, all⟩ := order
  obtain ⟨again, rfl, sortedAgain, allAgain⟩ := same
  have distinct : ∀ {list : List (Nat × α)}, list.Pairwise (·.1 < ·.1) → list.Nodup := fun sorted =>
    List.Pairwise.imp (S := (· ≠ ·)) (fun before same => Nat.lt_irrefl _ (same ▸ before)) sorted
  have perm : placed.Perm again := (List.perm_ext_iff_of_nodup (distinct sorted) (distinct sortedAgain)).2
    fun (place, item) => (all place item).trans (allAgain place item).symm
  rw [perm.eq_of_pairwise (fun one other _ _ before after => absurd before (Nat.lt_asymm after)) sorted sortedAgain]

/-- Places at which the same items stand are the same. -/
theorem congr {other : Nat → α → Prop} (same : ∀ place item, stands place item ↔ other place item)
    (order : InOrder stands items) : InOrder other items := by
  obtain ⟨placed, shown, sorted, all⟩ := order
  exact ⟨placed, shown, sorted, fun place item => (all place item).trans (same place item)⟩

/-- Where nothing stands, there are no items. -/
theorem nothing (empty : ∀ place item, ¬stands place item) : InOrder stands [] :=
  ⟨[], rfl, .nil, fun place item => by simp [empty]⟩

/-- Places that follow on a first one are counted from there. -/
theorem shift (order : InOrder (fun place => stands (place + 1)) items) (front : List (Nat × α))
    (sorted : front.Pairwise (·.1 < ·.1)) (first : ∀ place item, (place, item) ∈ front ↔ place = 0 ∧ stands 0 item) :
    InOrder stands (front.map Prod.snd ++ items) := by
  -- The items of the front stand at the first place, and all others come one place later.
  obtain ⟨placed, rfl, sortedRest, all⟩ := order
  refine ⟨front ++ placed.map fun (place, item) => (place + 1, item), by simp [Function.comp_def], ?_, ?_⟩
  · refine List.pairwise_append.2 ⟨sorted, ?_, ?_⟩
    · exact List.pairwise_map.2 (sortedRest.imp fun before => Nat.add_lt_add_right before 1)
    · rintro ⟨place, item⟩ here ⟨later, other⟩ there
      obtain ⟨⟨before, _⟩, _, same⟩ := List.mem_map.1 there
      have zero := ((first place item).1 here).1
      have positive := congrArg Prod.fst same
      simp only at positive ⊢
      omega
  · intro place item
    cases place with
    | zero => simp [first]
    | succ place => simp [first, ← all]

/-- An item at the first place comes first. -/
theorem cons {item : α} (order : InOrder (fun place => stands (place + 1)) items)
    (first : ∀ other, stands 0 other ↔ other = item) : InOrder stands (item :: items) :=
  order.shift [(0, item)] (List.pairwise_singleton ..) fun place other => by
    simp only [List.mem_singleton, Prod.mk.injEq, first]

/-- A first place where nothing stands is passed over. -/
theorem skip (order : InOrder (fun place => stands (place + 1)) items) (empty : ∀ other, ¬stands 0 other) :
    InOrder stands items :=
  order.shift [] .nil fun place other => by simp [empty]

/-- Items that are changed one by one keep their places. -/
theorem map {β : Type} (order : InOrder stands items) (change : α → β) :
    InOrder (fun place changed => ∃ item, stands place item ∧ change item = changed) (items.map change) := by
  -- The pairs of places and items are changed behind the places.
  obtain ⟨placed, rfl, sorted, all⟩ := order
  refine ⟨placed.map fun (place, item) => (place, change item), by simp [Function.comp_def], ?_, ?_⟩
  · exact List.pairwise_map.2 sorted
  · intro place changed
    constructor
    · intro member
      obtain ⟨⟨_, item⟩, there, same⟩ := List.mem_map.1 member
      cases same
      exact ⟨item, (all _ _).1 there, rfl⟩
    · rintro ⟨item, there, rfl⟩
      exact List.mem_map.2 ⟨(place, item), (all _ _).2 there, rfl⟩

/-- An item is dropped for one that is the same at an earlier place. -/
theorem mem_firsts {same : α → α → Bool} {placed : List (Nat × α)} (sorted : placed.Pairwise (·.1 < ·.1))
    (place : Nat) (item : α) :
    (place, item) ∈ firsts (fun one other => same one.2 other.2) placed ↔ (place, item) ∈ placed ∧
      ∀ earlier < place, ∀ other, (earlier, other) ∈ placed → same other item = false := by
  -- An item is checked against the head when that is added in front, and against the others before.
  induction placed with
  | nil => simp [firsts]
  | cons head rest ih =>
    obtain ⟨before, sortedRest⟩ := List.pairwise_cons.1 sorted
    have behind : ∀ {place : Nat} {item : α}, (place, item) ∈ rest → head.1 < place := fun member => before _ member
    simp only [firsts, List.mem_cons, List.mem_filter, ih sortedRest, Bool.not_eq_true']
    constructor
    · rintro (rfl | ⟨⟨later, others⟩, different⟩)
      · refine ⟨.inl rfl, fun earlier below other => ?_⟩
        rintro (same | there)
        · cases same
          exact absurd below (Nat.lt_irrefl _)
        · exact absurd below (Nat.lt_asymm (behind there))
      · refine ⟨.inr later, fun earlier below other => ?_⟩
        rintro (rfl | there)
        · exact different
        · exact others earlier below other there
    · rintro ⟨rfl | later, others⟩
      · exact .inl rfl
      · exact .inr ⟨⟨later, fun earlier below other there => others earlier below other (.inr there)⟩,
          others head.1 (behind later) head.2 (.inl rfl)⟩

/-- The items that differ from every earlier one stand where no earlier place has the same. -/
theorem firsts {same : α → α → Bool} (order : InOrder stands items) :
    InOrder (fun place item => stands place item ∧
      ∀ earlier < place, ∀ other, stands earlier other → same other item = false) (firsts same items) := by
  -- Dropping items does not disorder those that are left.
  obtain ⟨placed, rfl, sorted, all⟩ := order
  refine ⟨ConfigStore.firsts (fun one other => same one.2 other.2) placed, map_firsts Prod.snd placed,
    sorted.sublist (firsts_sublist placed), fun place item => ?_⟩
  simp only [mem_firsts sorted, all]

/-- The items are what stands at some place. -/
theorem mem_iff (order : InOrder stands items) (item : α) : item ∈ items ↔ ∃ place, stands place item := by
  obtain ⟨placed, rfl, -, all⟩ := order
  simp [← all]

/-- At the first place, one item may stand in front of the others. -/
theorem prepend {first : Option α} (order : InOrder (fun place => stands (place + 1)) items)
    (here : ∀ other, stands 0 other ↔ first = some other) : InOrder stands (first.toList ++ items) := by
  cases first with
  | none =>
    apply order.skip
    intro other stood
    cases (here other).1 stood
  | some item =>
    apply order.cons
    intro other
    rw [here, Option.some.injEq, eq_comm]

/-- The last item stands behind all others. -/
theorem last (order : InOrder stands (front ++ [item])) :
    ∃ place, stands place item ∧ (∀ later > place, ∀ other, ¬stands later other) ∧
      ∀ other, other ∈ front ↔ ∃ earlier < place, stands earlier other := by
  obtain ⟨placed, shown, sorted, all⟩ := order
  obtain ⟨before, rest, rfl, rfl, final⟩ := List.map_eq_append_iff.1 shown
  obtain ⟨⟨place, same⟩, rfl, rfl⟩ := List.map_eq_singleton_iff.1 final
  obtain ⟨-, -, behind⟩ := List.pairwise_append.1 sorted
  -- Whatever stands anywhere is the last item or comes before it.
  have bound : ∀ other at_, stands at_ other → (at_, other) ∈ before ∨ at_ = place := by
    intro other at_ stood
    rcases List.mem_append.1 ((all at_ other).2 stood) with early | late
    · exact .inl early
    · exact .inr (congrArg Prod.fst (List.mem_singleton.1 late))
  have below : ∀ other at_, (at_, other) ∈ before → at_ < place := fun other at_ early =>
    behind _ early _ (List.mem_singleton_self _)
  refine ⟨place, (all place same).1 (by simp), ?_, ?_⟩
  · intro later after other stood
    rcases bound other later stood with early | here
    · have := below other later early
      omega
    · omega
  · intro other
    constructor
    · intro member
      obtain ⟨⟨at_, one⟩, early, rfl⟩ := List.mem_map.1 member
      exact ⟨at_, below one at_ early, (all at_ one).1 (List.mem_append_left _ early)⟩
    · rintro ⟨earlier, before_, stood⟩
      rcases bound other earlier stood with early | here
      · exact List.mem_map.2 ⟨_, early, rfl⟩
      · omega

end InOrder

/-- A line at a place is a header. -/
def HeaderAt (lines : List (List Char)) (place : Nat) (name : String) : Prop :=
  ∃ line, lines[place]? = some line ∧ HeaderLine line name

/-- A line at a place is an entry. -/
def EntryAt (lines : List (List Char)) (place : Nat) (entry : Entry) : Prop :=
  ∃ line, lines[place]? = some line ∧ EntryLine line entry

/-- A line is an entry that counts for the header above all lines: no header comes before it, and no entry with
its key. -/
structure KeptAt (lines : List (List Char)) (place : Nat) (entry : Entry) : Prop where
  /-- The line is an entry. -/
  here : EntryAt lines place entry
  /-- No line before it is a header. -/
  below : ∀ earlier < place, ∀ name, ¬HeaderAt lines earlier name
  /-- No entry before it has its key. -/
  first : ∀ earlier < place, ∀ other, EntryAt lines earlier other → sameName other.key entry.key = false

/-- A line is a header that begins a section: its name differs from that of every earlier header, and the entries
that count for it are those of the section. -/
structure SectionAt (lines : List (List Char)) (place : Nat) (part : Section) : Prop where
  /-- The line is a header. -/
  here : HeaderAt lines place part.name
  /-- No header before it has its name. -/
  first : ∀ earlier < place, ∀ name, HeaderAt lines earlier name → sameName name part.name = false
  /-- The entries are those of the lines behind it. -/
  entries : InOrder (KeptAt (lines.drop (place + 1))) part.entries

section Places

variable (line : List Char) (rest : List (List Char)) (place : Nat)

@[simp] theorem headerAt_nil (name : String) : ¬HeaderAt [] place name := by
  simp [HeaderAt]

@[simp] theorem headerAt_zero (name : String) : HeaderAt (line :: rest) 0 name ↔ HeaderLine line name := by
  simp [HeaderAt]

@[simp] theorem headerAt_succ (name : String) :
    HeaderAt (line :: rest) (place + 1) name ↔ HeaderAt rest place name := by
  simp [HeaderAt]

@[simp] theorem entryAt_nil (entry : Entry) : ¬EntryAt [] place entry := by
  simp [EntryAt]

@[simp] theorem entryAt_zero (entry : Entry) : EntryAt (line :: rest) 0 entry ↔ EntryLine line entry := by
  simp [EntryAt]

@[simp] theorem entryAt_succ (entry : Entry) :
    EntryAt (line :: rest) (place + 1) entry ↔ EntryAt rest place entry := by
  simp [EntryAt]

end Places

/-- A line has the form of one header at most. -/
theorem HeaderAt.unique {lines : List (List Char)} {place : Nat} {name other : String}
    (here : HeaderAt lines place name) (there : HeaderAt lines place other) : name = other := by
  obtain ⟨line, found, header⟩ := here
  obtain ⟨same, again, headerAgain⟩ := there
  rw [found, Option.some.injEq] at again
  subst again
  rw [← Line.ofChars_eq_header_iff] at header headerAgain
  exact Line.header.inj (header.symm.trans headerAgain)

/-- A line that says something else is no header. -/
theorem not_headerLine (line : List Char) (other : ∀ name, Line.ofChars line ≠ .header name) (name : String) :
    ¬HeaderLine line name :=
  fun header => other name (Line.ofChars_eq_header_iff.2 header)

/-- A line that says something else is no entry. -/
theorem not_entryLine (line : List Char) (other : ∀ key value, Line.ofChars line ≠ .entry key value) (entry : Entry) :
    ¬EntryLine line entry :=
  fun here => other entry.key entry.value (Line.ofChars_eq_entry_iff.2 here)

/-- An entry behind a line counts unless the line is a header or the entry does not count by itself. -/
theorem countsAt_succ (line : List Char) (rest : List (List Char)) (place : Nat) (entry : Entry) :
    (EntryAt (line :: rest) (place + 1) entry ∧
        ∀ earlier < place + 1, ∀ name, ¬HeaderAt (line :: rest) earlier name) ↔
      (∀ name, ¬HeaderLine line name) ∧
        EntryAt rest place entry ∧ ∀ earlier < place, ∀ name, ¬HeaderAt rest earlier name := by
  simp only [entryAt_succ, Nat.forall_lt_succ_left, headerAt_zero, headerAt_succ]
  exact and_left_comm

/-- The entries above the next header stand at the lines that are entries, as far as no header comes before. -/
theorem entriesBelow_inOrder (lines : List (List Char)) :
    InOrder (fun place entry => EntryAt lines place entry ∧ ∀ earlier < place, ∀ name, ¬HeaderAt lines earlier name)
      (entriesBelow (lines.map Line.ofChars)) := by
  -- A line is a header, an entry or neither, and only a header ends the entries.
  induction lines with
  | nil => exact .nothing (by simp)
  | cons line rest ih =>
    cases told : Line.ofChars line with
    | header name =>
      have header := Line.ofChars_eq_header_iff.1 told
      have noEntry := not_entryLine line (by simp [told])
      simp only [List.map_cons, told, entriesBelow]
      refine .nothing fun place entry counts => ?_
      cases place with
      | zero => exact noEntry entry ((entryAt_zero ..).1 counts.1)
      | succ place => exact ((countsAt_succ ..).1 counts).1 name header
    | entry key value =>
      have noHeader := not_headerLine line (by simp [told])
      simp only [List.map_cons, told, entriesBelow]
      refine .cons (ih.congr fun place entry => ?_) fun entry => ?_
      · rw [countsAt_succ, and_iff_right noHeader]
      · simp only [entryAt_zero, Nat.not_lt_zero, false_imp_iff, implies_true, and_true]
        rw [← Line.ofChars_eq_entry_iff, told, Line.entry.injEq, eq_comm, @eq_comm _ value, ← Entry.mk.injEq]
    | void =>
      have noHeader := not_headerLine line (by simp [told])
      have noEntry := not_entryLine line (by simp [told])
      simp only [List.map_cons, told, entriesBelow]
      refine .skip (ih.congr fun place entry => ?_) fun entry counts => ?_
      · rw [countsAt_succ, and_iff_right noHeader]
      · exact noEntry entry ((entryAt_zero ..).1 counts.1)

/-- The entries that count for a header, the first of each key. -/
theorem kept_inOrder (lines : List (List Char)) :
    InOrder (KeptAt lines) (firsts Entry.sameKey (entriesBelow (lines.map Line.ofChars))) := by
  -- No header is above an entry that is above one without a header above it.
  refine (entriesBelow_inOrder lines).firsts.congr fun place entry => ?_
  constructor
  · rintro ⟨⟨here, below⟩, first⟩
    refine ⟨here, below, fun earlier before other there => first earlier before other ⟨there, ?_⟩⟩
    exact fun place above => below place (Nat.lt_trans above before)
  · rintro ⟨here, below, first⟩
    exact ⟨⟨here, below⟩, fun earlier before other there => first earlier before other there.1⟩

/-- Behind a line that is no header, blocks are those of the rest. -/
theorem blocks_cons_other {line : Line} (other : ∀ name, line ≠ .header name) (rest : List Line) :
    blocks (line :: rest) = blocks rest := by
  -- Only a header opens a block.
  cases line with
  | header name => exact absurd rfl (other name)
  | entry key value => rfl
  | void => rfl

/-- The blocks of lines stand at the headers. -/
theorem blocks_inOrder (lines : List (List Char)) :
    InOrder (fun place part => HeaderAt lines place part.name ∧
        part.entries = entriesBelow ((lines.drop (place + 1)).map Line.ofChars))
      (blocks (lines.map Line.ofChars)) := by
  -- Only a header stands at its place, and the blocks behind it are those of the rest.
  induction lines with
  | nil => exact .nothing (by simp)
  | cons line rest ih =>
    have behind : ∀ place (part : Section), (HeaderAt rest place part.name ∧
          part.entries = entriesBelow ((rest.drop (place + 1)).map Line.ofChars)) ↔
        HeaderAt (line :: rest) (place + 1) part.name ∧
          part.entries = entriesBelow (((line :: rest).drop (place + 1 + 1)).map Line.ofChars) := by
      intro place part
      rw [headerAt_succ, List.drop_succ_cons]
    by_cases header : ∃ name, Line.ofChars line = .header name
    · obtain ⟨name, told⟩ := header
      simp only [List.map_cons, told, blocks]
      refine .cons (ih.congr behind) fun part => ?_
      rw [headerAt_zero, ← Line.ofChars_eq_header_iff, told, Line.header.injEq, List.drop_succ_cons, List.drop_zero,
        eq_comm, ← Section.mk.injEq]
    · have other : ∀ name, Line.ofChars line ≠ .header name := fun name told => header ⟨name, told⟩
      rw [List.map_cons, blocks_cons_other other]
      exact .skip (ih.congr behind) fun part here => not_headerLine _ other _ ((headerAt_zero ..).1 here.1)

/-- The sections that lines make up stand at the first headers of each name, with the entries that count for
them. -/
theorem sections_inOrder (lines : List (List Char)) :
    InOrder (SectionAt lines) (outline (lines.map Line.ofChars)).sections := by
  -- Of the blocks, the first of each name stays, and of its entries the first of each key.
  refine ((blocks_inOrder lines).firsts.map Section.withFirsts).congr fun place part => ?_
  constructor
  · rintro ⟨block, ⟨⟨here, entries⟩, first⟩, rfl⟩
    refine ⟨here, fun earlier before name there => first earlier before ⟨name, _⟩ ⟨there, rfl⟩, ?_⟩
    simpa only [Section.withFirsts, entries] using kept_inOrder (lines.drop (place + 1))
  · rintro ⟨here, first, entries⟩
    refine ⟨⟨part.name, entriesBelow ((lines.drop (place + 1)).map Line.ofChars)⟩,
      ⟨⟨here, rfl⟩, fun earlier before other there => ?_⟩, ?_⟩
    · exact first earlier before other.name there.1
    · -- No other list has the entries that count in order.
      have same := (kept_inOrder (lines.drop (place + 1))).unique entries
      simp only [Section.withFirsts, same]

/-- A text is loaded into a keyfile exactly when the sections of the keyfile are those that begin at a line of
the text, in order, each with the entries that count for it. -/
theorem ofText_eq_iff_inOrder (limit : Nat) (text : String) (store : Keyfile) :
    Keyfile.ofText limit text = store ↔ InOrder (SectionAt (textLines limit text)) store.sections := by
  -- There is only one list of sections with those places in order.
  have sections := sections_inOrder (textLines limit text)
  rw [ofText_eq_outline]
  constructor
  · rintro rfl
    exact sections
  · intro order
    exact congrArg Keyfile.mk (sections.unique order)

end ConfigStore
