import Mathlib.Data.Finmap
import ConfigStore.Proofs.Keyfile.Coherent

/-! A keyfile stands for a finite map from folded names and keys to values. A request is an insertion or a deletion
there, and touches nothing in the keyfile but the place of its key. -/

namespace ConfigStore

/-- Values by folded names and keys. -/
abbrev Settings := Finmap fun _ : String × String => String

/-- A name and a key in their folded forms. -/
def slot (name key : String) : String × String :=
  (foldName name, foldName key)

/-- The settings of a section in order. -/
def Section.settings (part : Section) : List (Sigma fun _ : String × String => String) :=
  part.entries.map fun entry => ⟨slot part.name entry.key, entry.value⟩

/-- The settings of a keyfile. -/
def Keyfile.settings (store : Keyfile) : Settings :=
  (store.sections.flatMap Section.settings).toFinmap

namespace Request

/-- The name of the section that is meant. -/
def name : Request → String
  | .set name _ _ => name
  | .setOrRemove name _ _ => name
  | .remove name _ => name

/-- The key that is meant. -/
def key : Request → String
  | .set _ key _ => key
  | .setOrRemove _ key _ => key
  | .remove _ key => key

/-- The value that the key is to have, unless it is to have none. -/
def value : Request → Option String
  | .set _ _ value => some value
  | .setOrRemove _ _ value => value
  | .remove .. => none

/-- The settings after a request. -/
def replay (settings : Settings) (request : Request) : Settings :=
  match request.value with
  | some value => settings.insert (slot request.name request.key) value
  | none => settings.erase (slot request.name request.key)

/-- A request gives a key a value, or removes it for want of one. -/
theorem apply_eq (store : Keyfile) (request : Request) :
    request.apply store = store.setOrRemove request.name request.key request.value := by
  cases request with
  | set name key value => rfl
  | setOrRemove name key value => rfl
  | remove name key =>
    rw [apply, Keyfile.withdraw_eq]
    rfl

end Request

/-- What becomes of a keyfile by the value that a key had and the one that it is to have. -/
inductive Keyfile.Revision (store : Keyfile) (name key : String) : Option String → Option String → Keyfile → Prop where
  /-- A key that is there keeps its place and spelling, and nothing but its value changes. -/
  | replace {front back : List Section} {part : Section} {first last : List Entry} {entry : Entry} {value : String}
    (whole : store.sections = front ++ part :: back) (named : part.hasName name = true)
    (entries : part.entries = first ++ entry :: last) (keyed : entry.hasKey key = true) :
    store.Revision name key (some entry.value) (some value)
      ⟨front ++ { part with entries := first ++ { entry with value } :: last } :: back⟩
  /-- A key that is not there comes last in its section. -/
  | append {front back : List Section} {part : Section} {value : String}
    (whole : store.sections = front ++ part :: back) (named : part.hasName name = true)
    (absent : part.contains key = false) :
    store.Revision name key none (some value)
      ⟨front ++ { part with entries := part.entries ++ [⟨key, value⟩] } :: back⟩
  /-- A section that is not there comes last, with the key alone. -/
  | appendSection {value : String} (absent : store.contains name = false) :
    store.Revision name key none (some value) ⟨store.sections ++ [⟨name, [⟨key, value⟩]⟩]⟩
  /-- A key that goes leaves the others in order, and its section there. -/
  | delete {front back : List Section} {part : Section} {first last : List Entry} {entry : Entry}
    (whole : store.sections = front ++ part :: back) (named : part.hasName name = true)
    (entries : part.entries = first ++ entry :: last) (keyed : entry.hasKey key = true) :
    store.Revision name key (some entry.value) none ⟨front ++ { part with entries := first ++ last } :: back⟩
  /-- A key that is not there cannot go. -/
  | keep : store.Revision name key none none store

/-- Slots are the same when names and keys are. -/
theorem slot_eq_iff {name key other otherKey : String} :
    slot name key = slot other otherKey ↔ (sameName name other && sameName key otherKey) = true := by
  rw [slot, slot, Prod.mk.injEq, Bool.and_eq_true, sameName_iff, sameName_iff]

namespace Section

variable {part : Section} {name key : String}

/-- A slot is found among the settings of the section of its name as its key is in the section. -/
theorem dlookup_settings_self (named : part.hasName name = true) (key : String) :
    part.settings.dlookup (slot name key) = part.get? key := by
  -- Both look-ups pass the entries of other keys.
  obtain ⟨title, entries⟩ := part
  rw [settings, get?, find?]
  induction entries with
  | nil => rfl
  | cons entry rest ih =>
    rw [List.map_cons]
    by_cases keyed : entry.hasKey key = true
    · have same : slot title entry.key = slot name key := slot_eq_iff.2 (Bool.and_eq_true_iff.2 ⟨named, keyed⟩)
      rw [← same, List.dlookup_cons_eq, List.find?_cons_of_pos keyed, Option.map_some]
    · rw [List.dlookup_cons_ne, ih named, List.find?_cons_of_neg keyed]
      intro same
      exact keyed (Bool.and_eq_true_iff.1 (slot_eq_iff.1 same.symm)).2

/-- A slot is not found among the settings of a section of another name. -/
theorem dlookup_settings_other (other : part.hasName name = false) (key : String) :
    part.settings.dlookup (slot name key) = none := by
  -- All slots of the section have its name.
  rw [List.dlookup_eq_none, settings, List.keys, List.map_map]
  intro member
  obtain ⟨entry, -, same⟩ := List.mem_map.1 member
  have named := (Bool.and_eq_true_iff.1 (slot_eq_iff.1 same)).1
  rw [← hasName, other] at named
  cases named

end Section

namespace Keyfile

variable {store : Keyfile} {name key : String}

/-- Among sections whose names differ, a slot is found in the one of its name. -/
theorem dlookup_settings {parts : List Section}
    (different : parts.Pairwise fun one other => sameName one.name other.name = false) (name key : String) :
    (parts.flatMap Section.settings).dlookup (slot name key) =
      (parts.find? (Section.hasName name)).bind (·.get? key) := by
  -- Sections of other names are passed, and those behind the first of the name do not have it.
  induction parts with
  | nil => rfl
  | cons part rest ih =>
    obtain ⟨apart, behind⟩ := List.pairwise_cons.1 different
    rw [List.flatMap_cons, List.dlookup_append, ih behind]
    by_cases named : part.hasName name = true
    · have unfound : rest.find? (Section.hasName name) = none := by
        rw [List.find?_eq_none]
        intro other member same
        have different := apart other member
        rw [sameName_comm, sameName_congr_right named, ← Section.hasName, same] at different
        cases different
      rw [Section.dlookup_settings_self named, List.find?_cons_of_pos named, unfound, Option.bind_none, Option.or_none,
        Option.bind_some]
    · rw [List.find?_cons_of_neg named]
      rw [Bool.not_eq_true] at named
      rw [Section.dlookup_settings_other named, Option.none_or]

/-- The settings of a keyfile whose names differ are what it tells. -/
theorem Distinct.lookup_settings (distinct : store.Distinct) (name key : String) :
    store.settings.lookup (slot name key) = store.get? name key := by
  rw [settings, Finmap.dlookup_list_toFinmap, dlookup_settings (List.pairwise_map.1 distinct.names)]
  rfl

/-- A key that is removed has no value, since there was no other entry of it. -/
theorem Distinct.get?_remove_self (distinct : store.Distinct) (name key : String) :
    (store.remove name key).get? name key = none := by
  -- The section that is found is the one from which the entry went.
  rw [Keyfile.get?, Keyfile.section?, Keyfile.remove, changeSection, find?_changeFirst_self]
  · cases found : store.sections.find? (Section.hasName name) with
    | none => rfl
    | some part =>
      have different := List.pairwise_map.1 (distinct.keys part (List.mem_of_find?_eq_some found))
      rw [Option.map_some, Option.bind_some, Section.get?, Option.map_eq_none_iff]
      exact find?_eraseP_of_distinct Entry.key different key
  · intro part same
    exact same

/-- What a keyfile tells is what some settings hold. -/
def Holds (store : Keyfile) (settings : Settings) : Prop :=
  ∀ name key, store.get? name key = settings.lookup (slot name key)

/-- A request does to settings what it does to the keyfile that they stand for. -/
theorem Distinct.holds_replay (distinct : store.Distinct) {settings : Settings} (holds : store.Holds settings)
    (request : Request) : (request.apply store).Holds (request.replay settings) := by
  intro name key
  rw [Request.apply_eq, Request.replay]
  by_cases here : (sameName request.name name && sameName request.key key) = true
  · -- The slot that is asked for is the one that changes.
    rw [← slot_eq_iff.2 here]
    rw [Bool.and_eq_true] at here
    rw [← get?_congr _ here.1 here.2]
    cases request.value with
    | some value => rw [Finmap.lookup_insert, setOrRemove, get?_set_self]
    | none => rw [Finmap.lookup_erase, setOrRemove, distinct.get?_remove_self]
  · have apart : slot name key ≠ slot request.name request.key := fun same => here (slot_eq_iff.1 same.symm)
    rw [Bool.not_eq_true] at here
    cases request.value with
    | some value => rw [Finmap.lookup_insert_of_ne _ apart, setOrRemove, get?_set_other _ here, holds]
    | none => rw [Finmap.lookup_erase_ne apart, setOrRemove, get?_remove_other _ here, holds]

/-- Requests do to settings what they do to the keyfile that they stand for. -/
theorem Reachable.holds_run (reached : store.Reachable) {settings : Settings} (holds : store.Holds settings)
    (requests : List Request) :
    (requests.foldl Request.apply store).Holds (requests.foldl Request.replay settings) := by
  -- Names and keys differ before each request.
  induction requests generalizing store settings with
  | nil => exact holds
  | cons request rest ih => exact ih (reached.mutated (.request request)) (reached.distinct.holds_replay holds request)

/-- A key that gets a value is revised. -/
theorem revision_set (store : Keyfile) (name key value : String) :
    store.Revision name key (store.get? name key) (some value) (store.set name key value) := by
  -- The section and the entry are where they are found, or there are none.
  rw [set_eq, get?, section?]
  cases found : store.sections.find? (Section.hasName name) with
  | none =>
    have absent : store.contains name = false := by
      rw [contains, List.any_eq_false]
      exact List.find?_eq_none.1 found
    rw [absent]
    exact .appendSection absent
  | some part =>
    obtain ⟨named, front, back, whole, passed⟩ := exists_of_find? found
    have present : store.contains name = true :=
      List.any_eq_true.2 ⟨part, List.mem_of_find?_eq_some found, named⟩
    rw [if_pos present, changeSection, whole, changeFirst_append_cons passed named, Option.bind_some, Section.get?,
      Section.find?, Section.set, upsert_eq]
    cases within : part.entries.find? (Entry.hasKey key) with
    | none =>
      have absent : part.contains key = false := by
        rw [Section.contains, List.any_eq_false]
        exact List.find?_eq_none.1 within
      rw [← Section.contains, absent]
      exact .append whole named absent
    | some entry =>
      obtain ⟨keyed, first, last, entries, others⟩ := exists_of_find? within
      have present : part.entries.any (Entry.hasKey key) = true :=
        List.any_eq_true.2 ⟨entry, List.mem_of_find?_eq_some within, keyed⟩
      rw [if_pos present, entries, changeFirst_append_cons others keyed]
      exact .replace whole named entries keyed

/-- A key that is removed is revised. -/
theorem revision_remove (store : Keyfile) (name key : String) :
    store.Revision name key (store.get? name key) none (store.remove name key) := by
  -- The section and the entry are where they are found, or nothing changes.
  rw [remove, changeSection, get?, section?]
  cases found : store.sections.find? (Section.hasName name) with
  | none =>
    have absent : ∀ part ∈ store.sections, Section.hasName name part = false := by simpa using found
    rw [changeFirst_of_absent absent]
    exact .keep
  | some part =>
    obtain ⟨named, front, back, whole, passed⟩ := exists_of_find? found
    rw [whole, changeFirst_append_cons passed named, Option.bind_some, Section.get?, Section.find?, Section.remove]
    cases within : part.entries.find? (Entry.hasKey key) with
    | none =>
      -- Nothing is taken away, so the keyfile is put together as it was.
      rw [List.eraseP_of_forall_not (List.find?_eq_none.1 within), ← whole]
      exact .keep
    | some entry =>
      obtain ⟨keyed, first, last, entries, others⟩ := exists_of_find? within
      rw [entries, eraseP_append_cons others keyed]
      exact .delete whole named entries keyed

/-- A keyfile that is revised is as before exactly when the key had the value already that it is to have. -/
theorem Revision.eq_iff {old new : Option String} {next : Keyfile} (revision : store.Revision name key old new next) :
    next = store ↔ old = new := by
  obtain ⟨sections⟩ := store
  -- Otherwise the value of an entry differs, or the number of entries or sections.
  cases revision with
  | @replace _ _ part _ _ entry _ whole named entries keyed =>
    obtain ⟨title, within⟩ := part
    obtain ⟨spelled, old⟩ := entry
    simp only at entries
    subst whole entries
    simp [eq_comm]
  | @append _ _ part _ whole named absent =>
    obtain ⟨title, within⟩ := part
    subst whole
    simp
  | appendSection absent => simp
  | @delete _ _ part _ _ entry whole named entries keyed =>
    obtain ⟨title, within⟩ := part
    simp only at entries
    subst whole entries
    simp
  | keep => simp

/-- What becomes of a keyfile whose key is given a value or removed. -/
theorem revision_setOrRemove (store : Keyfile) (name key : String) (value : Option String) :
    store.Revision name key (store.get? name key) value (store.setOrRemove name key value) := by
  cases value with
  | some value => exact revision_set store name key value
  | none => exact revision_remove store name key

/-- After any requests, a keyfile tells what the settings hold to which they lead, a key that is taken out has the
value that these hold, and the next request touches nothing but the place of its key. -/
theorem Reachable.refines (reached : store.Reachable) (requests : List Request) :
    (∀ name key, (requests.foldl Request.apply store).get? name key =
      (requests.foldl Request.replay store.settings).lookup (slot name key)) ∧
    (∀ name key, ((requests.foldl Request.apply store).withdraw name key).1 =
      (requests.foldl Request.replay store.settings).lookup (slot name key)) ∧
    ∀ request : Request, (requests.foldl Request.apply store).Revision request.name request.key
      ((requests.foldl Request.replay store.settings).lookup (slot request.name request.key)) request.value
      (request.apply (requests.foldl Request.apply store)) := by
  have holds : store.Holds store.settings := fun name key => (reached.distinct.lookup_settings name key).symm
  have after := reached.holds_run holds requests
  refine ⟨after, ?_, ?_⟩
  · intro name key
    rw [withdraw_eq]
    exact after name key
  · intro request
    rw [← after, Request.apply_eq]
    cases request.value with
    | some value => exact revision_set _ request.name request.key value
    | none => exact revision_remove _ request.name request.key

/-- Only ASCII letters are folded, so a section of another letter is another one, which stays when its key is gone. -/
theorem refines_three :
    ([Request.set "A" "K" "w", .set "Ä" "x" "y", .set "ä" "x" "z"].foldl Request.replay
      (ofText 9 "[a]\nk=v\n").settings).lookup (slot "a" "k") = some "w" ∧
    Revision ⟨[⟨"a", [⟨"k", "w"⟩]⟩, ⟨"Ä", [⟨"x", "y"⟩]⟩, ⟨"ä", [⟨"x", "z"⟩]⟩]⟩ "Ä" "X" (some "y") none
      ⟨[⟨"a", [⟨"k", "w"⟩]⟩, ⟨"Ä", []⟩, ⟨"ä", [⟨"x", "z"⟩]⟩]⟩ := by
  have refined := (Reachable.ofText 9 "[a]\nk=v\n").refines
    [.set "A" "K" "w", .set "Ä" "x" "y", .set "ä" "x" "z"]
  have told := refined.1 "a" "k"
  have removed := refined.2.2 (.remove "Ä" "X")
  rw [← refined.1] at removed
  exact ⟨told.symm, removed⟩

end Keyfile

end ConfigStore
