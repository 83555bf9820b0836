import ConfigStore.Proofs.Keyfile.Reachable

/-! Where names and keys all differ, what is listed is found, and what is found is listed once. -/

namespace ConfigStore

section Distinct

variable {α : Type} (label : α → String) {items : List α} {item : α} {name : String}

/-- Among items whose labels differ, only one has the name of a label. -/
theorem filter_of_distinct (different : items.Pairwise fun one other => sameName (label one) (label other) = false)
    (member : item ∈ items) (same : sameName (label item) name = true) :
    items.filter (fun other => sameName (label other) name) = [item] := by
  obtain ⟨front, back, rfl⟩ := List.append_of_mem member
  obtain ⟨-, behind, across⟩ := List.pairwise_append.1 different
  obtain ⟨after, -⟩ := List.pairwise_cons.1 behind
  -- Neither in front of the item nor behind it is a label of that name.
  have before : front.filter (fun other => sameName (label other) name) = [] := by
    rw [List.filter_eq_nil_iff]
    intro other there found
    have apart := across other there item List.mem_cons_self
    rw [sameName_congr_right same, found] at apart
    cases apart
  have rest : back.filter (fun other => sameName (label other) name) = [] := by
    rw [List.filter_eq_nil_iff]
    intro other there found
    have apart := after other there
    rw [sameName_comm, sameName_congr_right same, found] at apart
    cases apart
  rw [List.filter_append, before, List.nil_append, List.filter_cons, if_pos same, rest]

/-- Among items whose labels differ, each is found by its own. -/
theorem find?_of_distinct (different : items.Pairwise fun one other => sameName (label one) (label other) = false)
    (member : item ∈ items) (same : sameName (label item) name = true) :
    items.find? (fun other => sameName (label other) name) = some item := by
  rw [← List.head?_filter, filter_of_distinct label different member same, List.head?_cons]

/-- Among items whose labels differ, nothing has the name of a label any more when the first that has it is gone. -/
theorem find?_eraseP_of_distinct
    (different : items.Pairwise fun one other => sameName (label one) (label other) = false) (name : String) :
    (items.eraseP fun other => sameName (label other) name).find? (fun other => sameName (label other) name) = none := by
  cases found : items.find? fun other => sameName (label other) name with
  | none =>
    rw [List.eraseP_of_forall_not (List.find?_eq_none.1 found)]
    exact found
  | some item =>
    -- The item that goes is the only one of the name.
    obtain ⟨same, front, back, rfl, passed⟩ := exists_of_find? found
    have single := filter_of_distinct label different (List.mem_append_right front List.mem_cons_self) same
    rw [List.filter_append, List.filter_cons, if_pos same, List.append_eq_singleton_iff] at single
    rw [eraseP_append_cons passed same, ← List.head?_filter, List.filter_append]
    rcases single with ⟨before, rest⟩ | ⟨-, rest⟩
    · rw [before, (List.cons.inj rest).2]
      rfl
    · cases rest

end Distinct

/-- What is listed is found, and what is found is listed once. -/
structure Keyfile.Coherent (store : Keyfile) : Prop where
  /-- Names and keys differ. -/
  distinct : store.Distinct
  /-- The keys that are told for a listed name are those of its section. -/
  keys : ∀ part ∈ store.sections, store.keys? part.name = some part.keys
  /-- The value that is told for a listed key is that of its entry. -/
  values : ∀ part ∈ store.sections, ∀ entry ∈ part.entries, store.get? part.name entry.key = some entry.value
  /-- A value that is told is that of the only listed name and the only listed key that are meant. -/
  single : ∀ name key value, store.get? name key = some value →
    ∃ part ∈ store.sections, ∃ entry ∈ part.entries, entry.value = value ∧
      store.sectionNames.filter (sameName · name) = [part.name] ∧ part.keys.filter (sameName · key) = [entry.key]
  /-- The index of a new section is that of its name whatever happens. -/
  index : ∀ name grown index, store.pushSection? name = some (grown, index) → ∀ mutations : List Mutation,
    ((mutations.foldl Mutation.apply grown).sectionAt? index).map Section.name = some name

namespace Keyfile

variable {store : Keyfile}

/-- A section is found by its name. -/
theorem Distinct.section? (distinct : store.Distinct) {part : Section} (member : part ∈ store.sections) {name : String}
    (same : part.hasName name = true) : store.section? name = some part :=
  find?_of_distinct Section.name (List.pairwise_map.1 distinct.names) member same

/-- An entry is found by the key of it. -/
theorem Distinct.find? (distinct : store.Distinct) {part : Section} (member : part ∈ store.sections) {entry : Entry}
    (there : entry ∈ part.entries) {key : String} (same : entry.hasKey key = true) : part.find? key = some entry :=
  find?_of_distinct Entry.key (List.pairwise_map.1 (distinct.keys part member)) there same

/-- A setting is found by its name and key. -/
theorem Distinct.get? (distinct : store.Distinct) {part : Section} (member : part ∈ store.sections) {entry : Entry}
    (there : entry ∈ part.entries) {name key : String} (named : part.hasName name = true)
    (same : entry.hasKey key = true) : store.get? name key = some entry.value := by
  rw [Keyfile.get?, distinct.section? member named, Option.bind_some, Section.get?, distinct.find? member there same]
  rfl

/-- A value that is told is that of an entry. -/
theorem exists_of_get? {name key value : String} (found : store.get? name key = some value) :
    ∃ part ∈ store.sections, part.hasName name = true ∧
      ∃ entry ∈ part.entries, entry.hasKey key = true ∧ entry.value = value := by
  obtain ⟨part, within, inner⟩ := Option.bind_eq_some_iff.1 found
  obtain ⟨entry, there, told⟩ := Option.map_eq_some_iff.1 inner
  exact ⟨part, List.mem_of_find?_eq_some within, List.find?_some within, entry, List.mem_of_find?_eq_some there,
    List.find?_some there, told⟩

/-- The index of a new section is that of its name whatever happens. -/
theorem sectionAt?_run {name : String} {grown : Keyfile} {index : Nat}
    (pushed : store.pushSection? name = some (grown, index)) (mutations : List Mutation) :
    ((mutations.foldl Mutation.apply grown).sectionAt? index).map Section.name = some name := by
  -- The name is the last one when it is new, and stays in its place from then on.
  have new : grown.sectionNames[index]? = some name := by
    rw [pushSection?] at pushed
    split at pushed
    · cases pushed
    · cases pushed
      simp [sectionNames]
  obtain ⟨within, -⟩ := List.getElem?_eq_some_iff.1 new
  obtain ⟨more, whole⟩ := sectionNames_run grown mutations
  rw [sectionAt?, ← List.getElem?_map, ← sectionNames, ← whole, List.getElem?_append_left within, new]

/-- Whatever is reached is coherent. -/
theorem Reachable.coherent (reached : store.Reachable) : store.Coherent where
  distinct := reached.distinct
  keys := by
    intro part member
    rw [keys?, reached.distinct.section? member (sameName_refl part.name)]
    rfl
  values := by
    intro part member entry there
    exact reached.distinct.get? member there (sameName_refl part.name) (sameName_refl entry.key)
  single := by
    intro name key value found
    obtain ⟨part, member, named, entry, there, keyed, told⟩ := exists_of_get? found
    refine ⟨part, member, entry, there, told, ?_, ?_⟩
    · exact filter_of_distinct id reached.distinct.names (List.mem_map_of_mem member) named
    · exact filter_of_distinct id (reached.distinct.keys part member) (List.mem_map_of_mem there) keyed
  index := fun name grown index pushed mutations => sectionAt?_run pushed mutations

end Keyfile

end ConfigStore
