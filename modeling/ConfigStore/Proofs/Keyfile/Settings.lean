import ConfigStore.Proofs.FirstMatch
import ConfigStore.Proofs.Keyfile.RoundTrip

/-! Setting and removing one key leaves every other key as it was, and a keyfile that is carried stays so. Each
setting of it whose own lines fit comes back from the file, whatever becomes of the others. -/

namespace ConfigStore

open Utf8

/-- Names that are the same name the same sections. -/
theorem Section.hasName_congr {name other : String} (same : sameName name other = true) :
    hasName name = hasName other := by
  funext part
  exact sameName_congr_right same part.name

/-- Keys that are the same are keys of the same entries. -/
theorem Entry.hasKey_congr {key other : String} (same : sameName key other = true) : hasKey key = hasKey other := by
  funext entry
  exact sameName_congr_right same entry.key

/-- Names that are the same have as many bytes. -/
theorem sameName_size {name other : String} (same : sameName name other = true) :
    name.utf8ByteSize = other.utf8ByteSize := by
  rw [sameName, Bool.and_eq_true, beq_iff_eq] at same
  exact same.1

/-- A name that is the same as one of two different names is not the same as the other. -/
theorem not_sameName_of_sameName {name one other : String} (same : sameName name one = true)
    (different : sameName one other = false) : sameName name other = false := by
  rw [sameName_congr same]
  exact different

namespace Section

variable (part : Section) {key other : String}

/-- A key has the value that it was given. -/
theorem get?_set_self (key value : String) : (part.set key value).get? key = some value := by
  -- The first match is the entry of the key, changed or added.
  simp only [get?, find?, set]
  rw [find?_upsert_self]
  · cases part.entries.find? (Entry.hasKey key) with
    | none => rfl
    | some entry => rfl
  · intro entry same
    exact same
  · exact sameName_refl key

/-- A key that is given the value that it has leaves the section as it was. -/
theorem set_of_get? {value : String} (found : part.get? key = some value) : part.set key value = part := by
  obtain ⟨entry, first, same⟩ := Option.map_eq_some_iff.1 found
  rw [set, upsert_eq_self first (by rw [← same])]

/-- Another key has the value that it had when one is set. -/
theorem get?_set_other (different : sameName key other = false) (value : String) :
    (part.set key value).get? other = part.get? other := by
  -- The entry that is changed or added has another key.
  simp only [get?, find?, set]
  rw [find?_upsert_other]
  · intro entry same
    have apart := not_sameName_of_sameName same different
    exact ⟨apart, apart⟩
  · exact different

/-- Another key has the value that it had when one is removed. -/
theorem get?_remove_other (different : sameName key other = false) :
    (part.remove key).get? other = part.get? other := by
  -- The entry that goes has another key.
  simp only [get?, find?, remove]
  rw [find?_eraseP_other]
  intro entry same
  exact not_sameName_of_sameName same different

/-- A key that is withdrawn is removed, and the value that is told is the one that it had. -/
theorem withdraw_eq (key : String) : part.withdraw key = (part.get? key, part.remove key) := by
  -- The entry is found and taken away by its index.
  rw [withdraw, get?, find?, remove, List.find?_eq_bind_findIdx?_getElem?, List.eraseP_eq_eraseIdx]
  cases part.entries.findIdx? (Entry.hasKey key) with
  | none => rfl
  | some index => rfl

/-- A section that is carried still is when one of its keys gets a value that is. -/
theorem Carried.set {part : Section} (carried : part.Carried) {key value : String}
    (fits : (Entry.mk key value).Carried) :
    (part.set key value).Carried := by
  -- The keys stay apart, since a new one comes for want of its own.
  refine ⟨carried.unclosed, carried.unbroken, fun entry member => ?_, ?_⟩
  · rcases mem_upsert member with old | ⟨old, place, -, rfl⟩ | rfl
    · exact carried.entries entry old
    · -- The old key stays with the new value.
      have kept := carried.entries old place
      exact ⟨kept.unsplit, kept.unbrokenKey, kept.noHeader, kept.noComment, fits.filled, fits.unbrokenValue⟩
    · exact fits
  · exact pairwise_upsert carried.keys (fun one other apart => apart) (fun one other apart => apart)
      fun entry absent => absent

/-- A section that is carried still is when one of its keys is removed. -/
theorem Carried.remove {part : Section} (carried : part.Carried) (key : String) : (part.remove key).Carried :=
  ⟨carried.unclosed, carried.unbroken, fun entry member => carried.entries entry (List.mem_of_mem_eraseP member),
    carried.keys.sublist List.eraseP_sublist⟩

end Section

namespace Keyfile

variable (store : Keyfile) {name other key otherKey : String}

/-- Settings go by name and key without regard to ASCII case. -/
theorem get?_congr (names : sameName name other = true) (keys : sameName key otherKey = true) :
    store.get? name key = store.get? other otherKey := by
  simp only [get?, section?, Section.get?, Section.find?]
  rw [Section.hasName_congr names, Entry.hasKey_congr keys]

/-- A key has the value that it was given. -/
theorem get?_set_self (name key value : String) : (store.set name key value).get? name key = some value := by
  -- The first match is the section of the name, changed or added.
  simp only [get?, section?, set]
  rw [find?_upsert_self]
  · cases store.sections.find? (Section.hasName name) with
    | none => simp [Section.get?, Section.find?, Entry.hasKey]
    | some part => exact part.get?_set_self key value
  · intro part same
    exact same
  · exact sameName_refl name

/-- A key that is given the value that it has leaves the store as it was. -/
theorem set_of_get? {value : String} (found : store.get? name key = some value) : store.set name key value = store := by
  obtain ⟨part, first, inside⟩ := Option.bind_eq_some_iff.1 found
  rw [set, upsert_eq_self first (part.set_of_get? inside)]

/-- Another key has the value that it had when one is set. -/
theorem get?_set_other (different : (sameName name other && sameName key otherKey) = false) (value : String) :
    (store.set name key value).get? other otherKey = store.get? other otherKey := by
  -- Sections of other names are passed, and the key is another one in its own.
  simp only [get?, section?, set]
  by_cases names : sameName name other = true
  · -- The section is the same, and the key is another one in it.
    have keys : sameName key otherKey = false := by simpa [names] using different
    rw [← Section.hasName_congr names, find?_upsert_self]
    · cases store.sections.find? (Section.hasName name) with
      | none => simp [Section.get?, Section.find?, Entry.hasKey, keys]
      | some part => exact part.get?_set_other keys value
    · intro part same
      exact same
    · exact sameName_refl name
  · rw [Bool.not_eq_true] at names
    rw [find?_upsert_other]
    · intro part same
      have apart := not_sameName_of_sameName same names
      exact ⟨apart, apart⟩
    · exact names

/-- Another key has the value that it had when one is removed. -/
theorem get?_remove_other (different : (sameName name other && sameName key otherKey) = false) :
    (store.remove name key).get? other otherKey = store.get? other otherKey := by
  -- Sections of other names are passed, and the key is another one in its own.
  simp only [get?, section?, remove, changeSection]
  by_cases names : sameName name other = true
  · have keys : sameName key otherKey = false := by simpa [names] using different
    rw [← Section.hasName_congr names, find?_changeFirst_self]
    · cases store.sections.find? (Section.hasName name) with
      | none => rfl
      | some part => exact part.get?_remove_other keys
    · intro part same
      exact same
  · rw [Bool.not_eq_true] at names
    rw [find?_changeFirst_other]
    intro part same
    have apart := not_sameName_of_sameName same names
    exact ⟨apart, apart⟩

/-- A key that is withdrawn is removed, and the value that is told is the one that it had. -/
theorem withdraw_eq (name key : String) : store.withdraw name key = (store.get? name key, store.remove name key) := by
  rw [withdraw, get?, section?, remove, changeSection]
  cases found : store.sections.find? (Section.hasName name) with
  | none =>
    have absent : ∀ part ∈ store.sections, Section.hasName name part = false := by simpa using found
    rw [changeFirst_of_absent absent]
    rfl
  | some part =>
    -- The section that changes is the one that was found.
    obtain ⟨named, front, back, whole, passed⟩ := exists_of_find? found
    simp only [changeSection, whole, changeFirst_append_cons passed named, Section.withdraw_eq]
    rfl

variable {store}

/-- A keyfile that is carried still is when a key gets a value and all three are. -/
theorem Carried.set (carried : store.Carried) {name key value : String} (unclosed : ']' ∉ name.toList)
    (unbroken : '\n' ∉ name.toList) (fits : (Entry.mk key value).Carried) : (store.set name key value).Carried := by
  -- The section is a new one with one entry, or has its place and name from before.
  refine ⟨fun part member => ?_, ?_⟩
  · rcases mem_upsert member with old | ⟨old, place, -, rfl⟩ | rfl
    · exact carried.sections part old
    · exact (carried.sections old place).set fits
    · -- The new section holds nothing but the new entry.
      refine ⟨unclosed, unbroken, fun entry there => ?_, List.pairwise_singleton ..⟩
      rw [List.mem_singleton.1 there]
      exact fits
  · exact pairwise_upsert carried.titles (fun one other apart => apart) (fun one other apart => apart)
      fun part absent => absent

/-- A keyfile that is carried still is when a key is removed. -/
theorem Carried.remove (carried : store.Carried) (name key : String) : (store.remove name key).Carried := by
  -- What is left was there before.
  refine ⟨fun part member => ?_, ?_⟩
  · rcases mem_changeFirst member with old | ⟨old, place, -, rfl⟩
    · exact carried.sections part old
    · exact (carried.sections old place).remove key
  · exact pairwise_changeFirst carried.titles (fun one other apart => apart) fun one other apart => apart

/-- A setting comes back from a file when its own lines fit. The lines of others may be cut, but none of them
comes to stand in its place. -/
theorem Carried.get?_loadBytes (carried : store.Carried) {limit : Nat} {name key value : String}
    (found : store.get? name key = some value) (title : name.utf8ByteSize + 2 ≤ limit)
    (line : key.utf8ByteSize + 1 + value.utf8ByteSize ≤ limit) :
    (loadBytes limit (encode store.render)).1.get? name key = some value := by
  obtain ⟨part, within, inner⟩ := Option.bind_eq_some_iff.1 found
  obtain ⟨entry, at_, rfl⟩ := Option.map_eq_some_iff.1 inner
  have written : store.dropEmpty.section? name = some part := section?_dropEmpty within at_
  -- Names that are the same have as many bytes.
  have place := carried.sections part (List.mem_of_find?_eq_some within)
  have kept := place.entries entry (List.mem_of_find?_eq_some at_)
  have names : part.hasName name = true := List.find?_some within
  have keys : entry.hasKey key = true := List.find?_some at_
  have nameSize := sameName_size names
  have keySize := sameName_size keys
  have header := (place.cutChars_header_iff limit).2 (by omega)
  have own := (kept.cutChars_line_iff limit).2 (.inl (show _ ≤ limit by omega))
  rw [loadBytes_render carried.dropEmpty]
  exact outline_get?_of_read rfl
    (fun other member => (carried.dropEmpty.sections other member).readBy limit) written at_ header own

end Keyfile

end ConfigStore
