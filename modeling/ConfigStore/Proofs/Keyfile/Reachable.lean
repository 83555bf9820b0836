import ConfigStore.Proofs.Keyfile.Settings

/-! Whatever is loaded and however it is changed, the names of sections all differ, and so do the keys of each
section. Hence what is listed is found, and what is found is listed once. -/

namespace ConfigStore

/-- What a section can be asked to change. -/
inductive SectionRequest where
  | set (key value : String)
  | insertNew (key value : String)
  | remove (key : String)
  deriving DecidableEq, Repr

/-- What a keyfile can be asked to do with one setting. -/
inductive Request where
  | set (name key value : String)
  | setOrRemove (name key : String) (value : Option String)
  | remove (name key : String)
  deriving DecidableEq, Repr

/-- What can happen to a keyfile: a request about a setting, a new section, or a request to a section that is
reached by name or by index. -/
inductive Mutation where
  | request (asked : Request)
  | pushSection (name : String)
  | changeSection (name : String) (asked : SectionRequest)
  | changeSectionAt (index : Nat) (asked : SectionRequest)
  deriving DecidableEq, Repr

/-- The section after a request. -/
def SectionRequest.apply (part : Section) : SectionRequest → Section
  | .set key value => part.set key value
  | .insertNew key value => (part.insertNew? key value).getD part
  | .remove key => (part.withdraw key).2

/-- The keyfile after a request. -/
def Request.apply (store : Keyfile) : Request → Keyfile
  | .set name key value => store.set name key value
  | .setOrRemove name key value => store.setOrRemove name key value
  | .remove name key => (store.withdraw name key).2

/-- The keyfile afterwards. -/
def Mutation.apply (store : Keyfile) : Mutation → Keyfile
  | .request asked => asked.apply store
  | .pushSection name => ((store.pushSection? name).map Prod.fst).getD store
  | .changeSection name asked => store.changeSection name fun part => asked.apply part
  | .changeSectionAt index asked => store.changeSectionAt index fun part => asked.apply part

/-- A keyfile that comes about by changes to an empty one or to one that was loaded. -/
inductive Keyfile.Reachable : Keyfile → Prop where
  | empty : Reachable Keyfile.empty
  | loaded {limit : Nat} {chunks : List (List UInt8)} {store : Keyfile}
    (loaded : (Keyfile.load limit ⟨chunks, none⟩).1 = some (.ok store)) : Reachable store
  | ofText (limit : Nat) (text : String) : Reachable (Keyfile.ofText limit text)
  | mutated {store : Keyfile} (reached : Reachable store) (mutation : Mutation) : Reachable (mutation.apply store)

/-- The names of a keyfile's sections differ, and so do the keys of each section. -/
structure Keyfile.Distinct (store : Keyfile) : Prop where
  /-- No two names are the same. -/
  names : store.sectionNames.Pairwise fun one other => sameName one other = false
  /-- No two keys of a section are the same. -/
  keys : ∀ part ∈ store.sections, part.keys.Pairwise fun one other => sameName one other = false

/-- What one mutation makes of a keyfile: nothing else, a change of one section, or another section of a new name
with at most one entry. -/
inductive Keyfile.Step (store : Keyfile) : Keyfile → Prop where
  | same : store.Step store
  | change {front back : List Section} {part : Section} (request : SectionRequest)
    (whole : store.sections = front ++ part :: back) : store.Step ⟨front ++ request.apply part :: back⟩
  | append {part : Section} (fresh : store.contains part.name = false) (short : part.entries.length ≤ 1) :
    store.Step ⟨store.sections ++ [part]⟩

namespace SectionRequest

variable (part : Section) (request : SectionRequest)

/-- A section keeps its name. -/
@[simp] theorem apply_name : (request.apply part).name = part.name := by
  cases request with
  | set key value => rfl
  | insertNew key value =>
    simp only [apply, Section.insertNew?]
    split <;> rfl
  | remove key =>
    simp only [apply, Section.withdraw_eq]
    rfl

variable {part}

/-- Keys that differ still do after a request. -/
theorem apply_keys (different : part.keys.Pairwise fun one other => sameName one other = false) :
    (request.apply part).keys.Pairwise fun one other => sameName one other = false := by
  -- Setting a key that is there and removing one bring no new key.
  rw [Section.keys, List.pairwise_map] at different ⊢
  cases request with
  | set key value =>
    exact pairwise_upsert different (fun one other apart => apart) (fun one other apart => apart)
      fun entry absent => absent
  | insertNew key value =>
    simp only [apply, Section.insertNew?]
    split
    · exact different
    · next absent =>
      -- No entry has the key, so the new one differs from all.
      refine List.pairwise_append.2 ⟨different, List.pairwise_singleton .., ?_⟩
      intro entry member added there
      rw [List.mem_singleton.1 there, ← Bool.not_eq_true]
      intro same
      exact absent (List.any_eq_true.2 ⟨entry, member, same⟩)
  | remove key =>
    simp only [apply, Section.withdraw_eq]
    exact different.sublist List.eraseP_sublist

end SectionRequest

namespace Keyfile

variable {store next : Keyfile}

/-- A section that is reached by name is changed where it is found, if at all. -/
theorem step_changeSection (store : Keyfile) (name : String) (request : SectionRequest) :
    store.Step (store.changeSection name fun part => request.apply part) := by
  -- Only the first section of the name changes.
  rw [changeSection]
  cases found : store.sections.find? (Section.hasName name) with
  | none =>
    have absent : ∀ part ∈ store.sections, Section.hasName name part = false := by simpa using found
    rw [changeFirst_of_absent absent]
    exact .same
  | some part =>
    obtain ⟨named, front, back, whole, passed⟩ := exists_of_find? found
    rw [whole, changeFirst_append_cons passed named]
    exact .change request whole

/-- A section that is reached by index is changed there, if there is one. -/
theorem step_changeSectionAt (store : Keyfile) (index : Nat) (request : SectionRequest) :
    store.Step (store.changeSectionAt index fun part => request.apply part) := by
  -- Sections in front of the index and behind it stay.
  rw [changeSectionAt]
  by_cases within : index < store.sections.length
  · rw [List.modify_eq_take_cons_drop within]
    apply Step.change request
    rw [← List.drop_eq_getElem_cons within, List.take_append_drop]
  · rw [List.modify_eq_self (Nat.le_of_not_lt within)]
    exact .same

/-- A key is set in the section of its name, or in a new one. -/
theorem set_eq (store : Keyfile) (name key value : String) :
    store.set name key value =
      if store.contains name then store.changeSection name (·.set key value)
      else ⟨store.sections ++ [⟨name, [⟨key, value⟩]⟩]⟩ := by
  rw [set, upsert_eq]
  split
  · next found => rw [contains, if_pos found, changeSection]
  · next absent => rw [contains, if_neg absent]

/-- A key is set in a step. -/
theorem step_set (store : Keyfile) (name key value : String) : store.Step (store.set name key value) := by
  rw [set_eq]
  split
  · exact step_changeSection store name (.set key value)
  · next absent => exact .append (by simpa using absent) (Nat.le_refl 1)

/-- A key is removed in a step. -/
theorem step_remove (store : Keyfile) (name key : String) : store.Step (store.remove name key) := by
  have step := step_changeSection store name (.remove key)
  simp only [SectionRequest.apply, Section.withdraw_eq] at step
  exact step

/-- Every mutation is a step. -/
theorem step_apply (store : Keyfile) (mutation : Mutation) : store.Step (mutation.apply store) := by
  cases mutation with
  | request asked =>
    cases asked with
    | set name key value => exact step_set store name key value
    | setOrRemove name key value =>
      cases value with
      | some value => exact step_set store name key value
      | none => exact step_remove store name key
    | remove name key =>
      simp only [Mutation.apply, Request.apply, withdraw_eq]
      exact step_remove store name key
  | pushSection name =>
    simp only [Mutation.apply, pushSection?]
    split
    · exact .same
    · next absent => exact .append (by simpa using absent) (Nat.zero_le 1)
  | changeSection name asked => exact step_changeSection store name asked
  | changeSectionAt index asked => exact step_changeSectionAt store index asked

/-- A step leaves the names that were there, in their places. -/
theorem Step.sectionNames (step : store.Step next) : store.sectionNames <+: next.sectionNames := by
  cases step with
  | same => exact List.prefix_refl _
  | change request whole => simp [Keyfile.sectionNames, whole]
  | append fresh short => simp [Keyfile.sectionNames]

/-- Names and keys that differ still do after a step. -/
theorem Step.distinct (step : store.Step next) (distinct : store.Distinct) : next.Distinct := by
  obtain ⟨names, keys⟩ := distinct
  cases step with
  | same => exact ⟨names, keys⟩
  | change request whole =>
    -- The section that changes keeps its name, and its keys differ as before.
    rw [whole] at keys
    refine ⟨?_, ?_⟩
    · simpa [Keyfile.sectionNames, whole] using names
    · intro part member
      rw [List.forall_mem_append, List.forall_mem_cons] at keys
      obtain ⟨before, own, behind⟩ := keys
      rcases List.mem_append.1 member with early | here
      · exact before part early
      · rcases List.mem_cons.1 here with rfl | late
        · exact request.apply_keys own
        · exact behind part late
  | append fresh short =>
    refine ⟨?_, ?_⟩
    · -- No section has the new name.
      rw [Keyfile.sectionNames, List.map_append, List.pairwise_append]
      refine ⟨names, List.pairwise_singleton .., ?_⟩
      intro one member other added
      obtain ⟨old, there, rfl⟩ := List.mem_map.1 member
      obtain rfl := List.mem_singleton.1 added
      rw [contains, List.any_eq_false] at fresh
      rw [← Bool.not_eq_true]
      exact fresh old there
    · intro part member
      rcases List.mem_append.1 member with old | new
      · exact keys part old
      · -- One key differs from no other.
        obtain rfl := List.mem_singleton.1 new
        rw [Section.keys]
        rcases Nat.le_one_iff_eq_zero_or_eq_one.1 short with zero | one
        · rw [List.eq_nil_of_length_eq_zero zero]
          exact .nil
        · obtain ⟨entry, only⟩ := List.length_eq_one_iff.1 one
          rw [only]
          exact List.pairwise_singleton ..

/-- What the format carries has different names and keys. -/
theorem Carried.distinct (carried : store.Carried) : store.Distinct :=
  ⟨List.pairwise_map.2 carried.titles, fun part member => List.pairwise_map.2 (carried.sections part member).keys⟩

/-- Names and keys differ in whatever is reached. -/
theorem Reachable.distinct (reached : store.Reachable) : store.Distinct := by
  -- A file or a text comes to the first of each name and key, and mutations are steps.
  induction reached with
  | empty =>
    refine ⟨.nil, ?_⟩
    intro part member
    cases member
  | loaded loaded =>
    rw [load_eq_loadBytes (le_of_load loaded)] at loaded
    cases loaded
    exact (loadBytes_carried _ _).distinct
  | ofText limit text =>
    rw [ofText_eq_outline]
    exact (outline_carried (textLines_unbroken limit text)).distinct
  | mutated reached mutation ih => exact (step_apply _ mutation).distinct ih

/-- A keyfile in which a key is set is reached. -/
theorem Reachable.set (reached : store.Reachable) (name key value : String) : (store.set name key value).Reachable :=
  reached.mutated (.request (.set name key value))

/-- A keyfile from which a key is removed is reached. -/
theorem Reachable.remove (reached : store.Reachable) (name key : String) : (store.remove name key).Reachable := by
  have removed := reached.mutated (.request (.remove name key))
  rw [Mutation.apply, Request.apply, withdraw_eq] at removed
  exact removed

/-- What is reached and changed is reached. -/
theorem Reachable.run (reached : store.Reachable) (mutations : List Mutation) :
    (mutations.foldl Mutation.apply store).Reachable := by
  -- The first mutation leads to what is reached, and the others go on from there.
  induction mutations generalizing store with
  | nil => exact reached
  | cons mutation rest ih => exact ih (reached.mutated mutation)

/-- Names stay in their places whatever happens. -/
theorem sectionNames_run (store : Keyfile) (mutations : List Mutation) :
    store.sectionNames <+: (mutations.foldl Mutation.apply store).sectionNames := by
  induction mutations generalizing store with
  | nil => exact List.prefix_refl _
  | cons mutation rest ih => exact (step_apply store mutation).sectionNames.trans (ih _)

end Keyfile

end ConfigStore
