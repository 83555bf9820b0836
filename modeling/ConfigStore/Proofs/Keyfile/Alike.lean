import ConfigStore.Proofs.Keyfile.RoundTrip
import ConfigStore.Proofs.Keyfile.Settings

/-! Keyfiles that are alike: in sections of the same names, they have the same entries in the same order and spelling. A
section without entries counts for nothing, so a keyfile is like what comes back from its text. -/

namespace ConfigStore.Keyfile

/-- The entries of the first section with a name, or none for want of one. -/
def entriesOf (store : Keyfile) (name : String) : List Entry :=
  ((store.section? name).map Section.entries).getD []

/-- Keyfiles that have the same entries in sections of each name. -/
def Alike (one other : Keyfile) : Prop :=
  ∀ name, one.entriesOf name = other.entriesOf name

variable {store one other : Keyfile} {name key : String} {limit : Nat}

/-- The value of a key is that of the first such entry. -/
theorem get?_eq_entriesOf (store : Keyfile) (name key : String) :
    store.get? name key = ((store.entriesOf name).find? (Entry.hasKey key)).map Entry.value := by
  rw [get?, entriesOf]
  cases store.section? name with
  | none => rfl
  | some part => rfl

/-- A section has some keys exactly if its entries have them. -/
theorem keys?_eq_some_iff {keys : List String} (filled : keys ≠ []) :
    store.keys? name = some keys ↔ (store.entriesOf name).map Entry.key = keys := by
  rw [keys?, entriesOf]
  cases store.section? name with
  | none => simp [filled.symm]
  | some part => simp [Section.keys]

/-- A key that is set is set among the entries of its section, and those of other sections stay. -/
theorem entriesOf_set (store : Keyfile) (name key value wanted : String) :
    (store.set name key value).entriesOf wanted =
      if sameName name wanted then
        upsert (Entry.hasKey key) (fun entry => { entry with value }) ⟨key, value⟩ (store.entriesOf wanted)
      else store.entriesOf wanted := by
  simp only [entriesOf, section?, set]
  by_cases names : sameName name wanted = true
  · -- The section is the one that was changed or added.
    rw [if_pos names, ← Section.hasName_congr names, find?_upsert_self]
    · cases store.sections.find? (Section.hasName name) with
      | none => rfl
      | some part => rfl
    · intro part same
      exact same
    · exact sameName_refl name
  · rw [if_neg names]
    rw [Bool.not_eq_true] at names
    rw [find?_upsert_other]
    · intro part same
      have apart := not_sameName_of_sameName same names
      exact ⟨apart, apart⟩
    · exact names

/-- A key that is removed is removed from the entries of its section, and those of other sections stay. -/
theorem entriesOf_remove (store : Keyfile) (name key wanted : String) :
    (store.remove name key).entriesOf wanted =
      if sameName name wanted then (store.entriesOf wanted).eraseP (Entry.hasKey key) else store.entriesOf wanted := by
  simp only [entriesOf, section?, remove, changeSection]
  by_cases names : sameName name wanted = true
  · rw [if_pos names, ← Section.hasName_congr names, find?_changeFirst_self]
    · cases store.sections.find? (Section.hasName name) with
      | none => rfl
      | some part => rfl
    · intro part same
      exact same
  · rw [if_neg names]
    rw [Bool.not_eq_true] at names
    rw [find?_changeFirst_other]
    intro part same
    have apart := not_sameName_of_sameName same names
    exact ⟨apart, apart⟩

/-- Without its empty sections, a keyfile whose names differ has the same entries. -/
theorem entriesOf_dropEmpty (titles : store.sections.Pairwise fun one other => one.sameTitle other = false)
    (name : String) : store.dropEmpty.entriesOf name = store.entriesOf name := by
  -- The section of the name stays, or it was empty and there is no other one.
  rw [entriesOf, entriesOf, section?, section?, dropEmpty]
  cases found : store.sections.find? (Section.hasName name) with
  | none =>
    have absent := List.find?_eq_none.1 found
    rw [List.find?_eq_none.2 fun part member => absent part (List.mem_filter.1 member).1]
  | some part =>
    by_cases filled : part.entries = []
    · obtain ⟨named, front, back, whole, passed⟩ := exists_of_find? found
      rw [whole, List.pairwise_append, List.pairwise_cons] at titles
      have others : ∀ other ∈ store.sections, Section.hasName name other = true → other.entries = [] := by
        intro other member same
        rw [whole] at member
        rcases List.mem_append.1 member with before | here
        · rw [passed other before] at same
          cases same
        · rcases List.mem_cons.1 here with rfl | behind
          · exact filled
          · -- Two sections of one name would not differ.
            have apart : sameName part.name other.name = false := titles.2.1.1 other behind
            rw [sameName_congr_right same, ← Section.hasName, named] at apart
            cases apart
      have unfound : (store.sections.filter fun part => !part.entries.isEmpty).find? (Section.hasName name) = none := by
        refine List.find?_eq_none.2 fun other member same => ?_
        obtain ⟨there, filled⟩ := List.mem_filter.1 member
        rw [others other there same] at filled
        cases filled
      rw [unfound, Option.map_some, Option.getD_some, filled]
      rfl
    · rw [find?_filter_of_pass found (by simpa using filled)]

namespace Alike

/-- Keyfiles that are alike tell the same values. -/
theorem get? (alike : one.Alike other) (name key : String) : one.get? name key = other.get? name key := by
  rw [get?_eq_entriesOf, get?_eq_entriesOf, alike]

/-- They tell the same keys, if any. -/
theorem keys? (alike : one.Alike other) {keys : List String} (filled : keys ≠ []) :
    one.keys? name = some keys ↔ other.keys? name = some keys := by
  rw [keys?_eq_some_iff filled, keys?_eq_some_iff filled, alike]

/-- They stay alike when a key gets a value, or is removed for want of one. -/
theorem setOrRemove (alike : one.Alike other) (name key : String) (value : Option String) :
    (one.setOrRemove name key value).Alike (other.setOrRemove name key value) := by
  intro wanted
  cases value with
  | some value => rw [Keyfile.setOrRemove, Keyfile.setOrRemove, entriesOf_set, entriesOf_set, alike]
  | none => rw [Keyfile.setOrRemove, Keyfile.setOrRemove, entriesOf_remove, entriesOf_remove, alike]

end Alike

/-- Lines that fit still do when a key gets a value and its own lines fit. -/
theorem Fits.set (fits : store.Fits limit) {value : String} (own : (Section.mk name [⟨key, value⟩]).Fits limit) :
    (store.set name key value).Fits limit := by
  intro part member
  rcases mem_upsert member with old | ⟨old, place, -, rfl⟩ | rfl
  · exact fits part old
  · -- The section keeps its name, and an entry its key.
    refine ⟨(fits old place).header, fun entry there => ?_⟩
    have line := own.entries _ (List.mem_singleton_self _)
    rcases mem_upsert there with before | ⟨before, -, same, rfl⟩ | rfl
    · exact (fits old place).entries entry before
    · rw [Entry.Fits] at line ⊢
      rw [sameName_size same]
      exact line
    · exact line
  · exact own

/-- Lines that fit still do when a key is removed. -/
theorem Fits.remove (fits : store.Fits limit) (name key : String) : (store.remove name key).Fits limit := by
  intro part member
  rcases mem_changeFirst member with old | ⟨old, place, -, rfl⟩
  · exact fits part old
  · exact ⟨(fits old place).header, fun entry there => (fits old place).entries entry (List.mem_of_mem_eraseP there)⟩

/-- What comes back from the text of a keyfile that is carried and fits is like it, and is carried and fits as well. -/
theorem Carried.reload (carried : store.Carried) (fits : store.Fits limit) :
    (loadBytes limit (Utf8.encode store.render)).1.Alike store ∧
      (loadBytes limit (Utf8.encode store.render)).1.Fits limit := by
  -- No line is cut, so nothing but the empty sections is lost.
  have kept : store.dropEmpty.Fits limit := fun part member => fits part (List.mem_filter.1 member).1
  rw [loadBytes_render carried.dropEmpty, outline_of_uncut carried.dropEmpty fun line member =>
    Utf8.cutChars_of_fits (kept.lines line member)]
  exact ⟨entriesOf_dropEmpty carried.titles, kept⟩

end ConfigStore.Keyfile
