import Mathlib.Data.List.Induction
import ConfigStore.Backend.WorkingCopy
import ConfigStore.Proofs.Keyfile.Replay

/-! Changes to settings, one after the other. A working copy holds the value that was given to a key last, and is
carried by the format if what it began with was and everything that is given is. -/

namespace ConfigStore

/-- A value for a key, or none. -/
structure Edit where
  /-- The name of the section. -/
  name : String
  /-- The key. -/
  key : String
  /-- The value that the key is given, unless the key is removed. -/
  change : Option String
  deriving DecidableEq, Repr

namespace Edit

/-- What a change makes of a store, whether or not the key has the value already. -/
def apply (store : Keyfile) (edit : Edit) : Keyfile :=
  store.setOrRemove edit.name edit.key edit.change

/-- Whether a change is about a key in a section of a name. -/
def meets (name key : String) (edit : Edit) : Bool :=
  sameName edit.name name && sameName edit.key key

/-- What the last change about a key made of it, if there is any. -/
def last? (edits : List Edit) (name key : String) : Option (Option String) :=
  (edits.reverse.find? (meets name key)).map change

/-- A section with nothing but what a change gives is carried by the format, and its lines fit. Whatever a change
takes away does not matter. -/
def Fits (limit : Nat) (edit : Edit) : Prop :=
  ∀ value ∈ edit.change,
    (Section.mk edit.name [⟨edit.key, value⟩]).Carried ∧ (Section.mk edit.name [⟨edit.key, value⟩]).Fits limit

instance (limit : Nat) (edit : Edit) : Decidable (edit.Fits limit) :=
  inferInstanceAs (Decidable (∀ value ∈ edit.change,
    (Section.mk edit.name [⟨edit.key, value⟩]).Carried ∧ (Section.mk edit.name [⟨edit.key, value⟩]).Fits limit))

/-- The last of some changes counts if it is about the key, and otherwise the last one before it that is. -/
theorem last?_append (edits : List Edit) (edit : Edit) (name key : String) :
    last? (edits ++ [edit]) name key =
      if edit.meets name key then some edit.change else last? edits name key := by
  -- Changes are looked at from the last one on.
  rw [last?, List.reverse_append, List.reverse_singleton, List.singleton_append, List.find?_cons]
  cases edit.meets name key with
  | true => rfl
  | false => rfl

/-- The last change that gives a value to a key is one of the changes. -/
theorem exists_of_last? {edits : List Edit} {name key : String} {change : Option String}
    (found : last? edits name key = some change) :
    ∃ edit ∈ edits, edit.meets name key = true ∧ edit.change = change := by
  obtain ⟨edit, there, same⟩ := Option.map_eq_some_iff.1 found
  exact ⟨edit, List.mem_reverse.1 (List.mem_of_find?_eq_some there), List.find?_some there, same⟩

end Edit

namespace WorkingCopy

/-- Makes a change. -/
def edit (copy : WorkingCopy) (edit : Edit) : WorkingCopy :=
  match edit.change with
  | some value => copy.set edit.name edit.key value
  | none => copy.remove edit.name edit.key

variable (copy : WorkingCopy) {name key other otherKey : String}

/-- A key has the value that it was given, even if it had that before. -/
theorem get?_set_self (name key value : String) : (copy.set name key value).store.get? name key = some value := by
  -- If the value was held before, nothing is set.
  rw [set]
  split
  · next held => simpa [holds] using held
  · exact copy.store.get?_set_self name key value

/-- Another key has the value that it had. -/
theorem get?_edit_other {edit : Edit} (different : edit.meets name key = false) :
    (copy.edit edit).store.get? name key = copy.store.get? name key := by
  -- A change is about one key, whatever it does.
  rw [WorkingCopy.edit]
  cases edit.change with
  | some value =>
    simp only [set]
    split
    · rfl
    · exact copy.store.get?_set_other different value
  | none =>
    simp only [remove]
    split
    · exact copy.store.get?_remove_other different
    · rfl

/-- A change that is not made would make no difference, and one that is made does. -/
theorem edit_eq (edit : Edit) :
    copy.edit edit = ⟨edit.apply copy.store, copy.dirty || edit.apply copy.store != copy.store⟩ := by
  -- The change is not made if the key has the value already that it is to have, or none.
  have same := (Keyfile.revision_setOrRemove copy.store edit.name edit.key edit.change).eq_iff
  rw [Edit.apply]
  obtain ⟨name, key, change⟩ := edit
  by_cases held : copy.store.get? name key = change
  · rw [same.2 held, bne_self_eq_false, Bool.or_false, WorkingCopy.edit]
    subst held
    cases found : copy.store.get? name key with
    | some value => simp [set, holds, found]
    | none => simp [remove, has, found]
  · have differs : (copy.store.setOrRemove name key change != copy.store) = true := by simpa using mt same.1 held
    rw [differs, Bool.or_true, WorkingCopy.edit]
    cases change with
    | some value => simp [set, holds, held, Keyfile.setOrRemove]
    | none => simp [remove, has, Option.isSome_iff_ne_none, held, Keyfile.setOrRemove]

variable {copy}

/-- A store that is carried still is when a change that fits is made. -/
theorem carried_edit (carried : copy.store.Carried) {edit : Edit} {limit : Nat} (fits : edit.Fits limit) :
    (copy.edit edit).store.Carried := by
  -- A value that fits is carried, and taking one away leaves the others.
  rw [WorkingCopy.edit]
  cases change : edit.change with
  | some value =>
    simp only [set]
    split
    · exact carried
    · obtain ⟨own, -⟩ := fits value change
      exact carried.set own.unclosed own.unbroken (own.entries _ (List.mem_singleton_self _))
  | none =>
    simp only [remove]
    split
    · exact carried.remove _ _
    · exact carried

/-- A store that is carried still is when changes that fit are made. -/
theorem carried_edits (carried : copy.store.Carried) {edits : List Edit} {limit : Nat}
    (fits : ∀ edit ∈ edits, edit.Fits limit) : (edits.foldl WorkingCopy.edit copy).store.Carried := by
  -- Each change is made to a store that is carried.
  induction edits generalizing copy with
  | nil => exact carried
  | cons edit rest ih =>
    obtain ⟨first, others⟩ := List.forall_mem_cons.1 fits
    exact ih (carried_edit carried first) others

/-- A key has the value that it was given last, whatever happened to other keys since. -/
theorem get?_edits {edits : List Edit} {value : String} (given : Edit.last? edits name key = some (some value)) :
    (edits.foldl WorkingCopy.edit copy).store.get? name key = some value := by
  -- The last change is about the key or leaves it as it was.
  induction edits using List.reverseRecOn with
  | nil => cases given
  | append_singleton edits edit ih =>
    rw [List.foldl_append, List.foldl_cons, List.foldl_nil]
    rw [Edit.last?_append] at given
    cases meets : edit.meets name key with
    | true =>
      rw [meets, if_pos rfl, Option.some.injEq] at given
      have names := meets
      rw [Edit.meets, Bool.and_eq_true] at names
      rw [← Keyfile.get?_congr _ names.1 names.2, WorkingCopy.edit, given]
      exact get?_set_self _ _ _ _
    | false =>
      rw [meets, if_neg (by decide)] at given
      rw [get?_edit_other _ meets]
      exact ih given

end WorkingCopy

end ConfigStore
