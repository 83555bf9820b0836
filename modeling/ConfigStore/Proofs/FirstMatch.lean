import Mathlib.Data.List.Basic
import ConfigStore.FirstMatch

/-! Changing the first match in a list, or adding one, finds nothing else otherwise than before. -/

namespace ConfigStore

variable {α : Type} {here there : α → Bool} {change : α → α} {fresh : α} {items : List α}

section ChangeFirst

/-- Behind items that are no match, the first match is changed at its place. -/
theorem changeFirst_append_cons {front back : List α} {item : α} (passed : ∀ other ∈ front, here other = false)
    (found : here item = true) :
    changeFirst here change (front ++ item :: back) = front ++ change item :: back := by
  -- The items in front are passed one by one.
  induction front with
  | nil => rw [List.nil_append, changeFirst, if_pos found, List.nil_append]
  | cons head rest ih =>
    obtain ⟨first, others⟩ := List.forall_mem_cons.1 passed
    rw [List.cons_append, changeFirst, if_neg (ne_true_of_eq_false first), ih others, List.cons_append]

/-- Without a match, nothing is changed. -/
theorem changeFirst_of_absent (absent : ∀ item ∈ items, here item = false) : changeFirst here change items = items := by
  -- All items are passed.
  induction items with
  | nil => rfl
  | cons head rest ih =>
    obtain ⟨first, others⟩ := List.forall_mem_cons.1 absent
    rw [changeFirst, if_neg (ne_true_of_eq_false first), ih others]

/-- Behind items that are no match, the first match is taken away from its place. -/
theorem eraseP_append_cons {front back : List α} {item : α} (passed : ∀ other ∈ front, here other = false)
    (found : here item = true) : (front ++ item :: back).eraseP here = front ++ back := by
  rw [List.eraseP_append_right _ fun other member => ne_true_of_eq_false (passed other member),
    List.eraseP_cons_of_pos found]

/-- The first match stands behind items that are none. -/
theorem exists_of_find? {item : α} (found : items.find? here = some item) :
    here item = true ∧ ∃ front back, items = front ++ item :: back ∧ ∀ other ∈ front, here other = false := by
  simpa using List.find?_eq_some_iff_append.1 found

/-- Changing the first match finds nothing else otherwise than before. -/
theorem find?_changeFirst_other (apart : ∀ item, here item = true → there item = false ∧ there (change item) = false) :
    (changeFirst here change items).find? there = items.find? there := by
  -- The look-up passes what is changed, as it did before.
  induction items with
  | nil => rfl
  | cons item rest ih =>
    rw [changeFirst]
    by_cases first : here item = true
    · obtain ⟨before, after⟩ := apart item first
      simp [first, before, after]
    · rw [if_neg first, List.find?_cons, List.find?_cons, ih]

/-- The first match is found changed. -/
theorem find?_changeFirst_self (kept : ∀ item, here item = true → here (change item) = true) :
    (changeFirst here change items).find? here = (items.find? here).map change := by
  -- What is changed is still a match, and the first one.
  induction items with
  | nil => rfl
  | cons item rest ih =>
    rw [changeFirst, List.find?_cons]
    by_cases first : here item = true
    · have changed := kept item first
      simp [first, changed]
    · rw [if_neg first, List.find?_cons_of_neg first, ih]
      simp [first]

/-- Taking the first match away finds nothing else otherwise than before. -/
theorem find?_eraseP_other (apart : ∀ item, here item = true → there item = false) :
    (items.eraseP here).find? there = items.find? there := by
  -- The look-up passes what is taken away.
  induction items with
  | nil => rfl
  | cons item rest ih =>
    by_cases first : here item = true
    · rw [List.eraseP_cons_of_pos first, List.find?_cons_of_neg (by simp [apart item first])]
    · rw [List.eraseP_cons_of_neg first, List.find?_cons, List.find?_cons, ih]

/-- An item is one from before or what a match was changed to. -/
theorem mem_changeFirst {item : α} (member : item ∈ changeFirst here change items) :
    item ∈ items ∨ ∃ old ∈ items, here old = true ∧ item = change old := by
  -- Items are passed up to the first match, which is changed.
  induction items with
  | nil => cases member
  | cons head rest ih =>
    rw [changeFirst] at member
    by_cases first : here head = true
    · rw [if_pos first] at member
      rcases List.mem_cons.1 member with changed | behind
      · exact .inr ⟨head, List.mem_cons_self, first, changed⟩
      · exact .inl (List.mem_cons_of_mem _ behind)
    · rw [if_neg first] at member
      rcases List.mem_cons.1 member with same | behind
      · exact .inl (same ▸ List.mem_cons_self)
      · rcases ih behind with old | ⟨old, place, found, changed⟩
        · exact .inl (List.mem_cons_of_mem _ old)
        · exact .inr ⟨old, List.mem_cons_of_mem _ place, found, changed⟩

/-- Items that differ still do if a change does not count. -/
theorem pairwise_changeFirst {differ : α → α → Prop} (different : items.Pairwise differ)
    (front : ∀ one other, differ one other → differ (change one) other)
    (back : ∀ one other, differ one other → differ one (change other)) :
    (changeFirst here change items).Pairwise differ := by
  -- The changed item takes the place of the old one.
  induction items with
  | nil => exact .nil
  | cons head rest ih =>
    obtain ⟨apart, behind⟩ := List.pairwise_cons.1 different
    rw [changeFirst]
    by_cases first : here head = true
    · rw [if_pos first]
      exact List.pairwise_cons.2 ⟨fun other member => front head other (apart other member), behind⟩
    · rw [if_neg first]
      refine List.pairwise_cons.2 ⟨fun other member => ?_, ih behind⟩
      rcases mem_changeFirst member with old | ⟨old, place, -, rfl⟩
      · exact apart other old
      · exact back head old (apart old place)

end ChangeFirst

section Upsert

/-- Something new is only added for want of a match. -/
theorem upsert_eq : upsert here change fresh items =
    if items.any here then changeFirst here change items else items ++ [fresh] := by
  -- Both pass the same items up to the first match.
  induction items with
  | nil => rfl
  | cons item rest ih =>
    rw [upsert, changeFirst, List.any_cons]
    by_cases first : here item = true
    · simp [first]
    · -- The first item is passed in any case.
      rw [if_neg first, if_neg first, ih]
      rw [Bool.not_eq_true] at first
      rw [first, Bool.false_or]
      split
      · rfl
      · rfl

/-- The first match is the one that was changed or added. -/
theorem find?_upsert_self (kept : ∀ item, here item = true → here (change item) = true) (new : here fresh = true) :
    (upsert here change fresh items).find? here = some (((items.find? here).map change).getD fresh) := by
  rw [upsert_eq]
  cases found : items.find? here with
  | none =>
    -- Without a match, the new one is the first.
    have absent : ¬items.any here = true := by simpa using List.find?_eq_none.1 found
    rw [if_neg absent, List.find?_append, found, Option.none_or, List.find?_singleton, if_pos new]
    rfl
  | some item =>
    have present : items.any here = true :=
      List.any_eq_true.2 ⟨item, List.mem_of_find?_eq_some found, List.find?_some found⟩
    rw [if_pos present, find?_changeFirst_self kept, found]
    rfl

/-- A first match that the change leaves as it is leaves the items as they are. -/
theorem upsert_eq_self {item : α} (found : items.find? here = some item) (same : change item = item) :
    upsert here change fresh items = items := by
  induction items with
  | nil => cases found
  | cons head rest ih =>
    rw [upsert]
    by_cases first : here head = true
    · rw [List.find?_cons_of_pos first, Option.some.injEq] at found
      rw [if_pos first, found, same]
    · rw [List.find?_cons_of_neg first] at found
      rw [if_neg first, ih found]

/-- Nothing else is found otherwise than before. -/
theorem find?_upsert_other (apart : ∀ item, here item = true → there item = false ∧ there (change item) = false)
    (new : there fresh = false) : (upsert here change fresh items).find? there = items.find? there := by
  -- An item is changed or added, and neither is a match for the other test.
  rw [upsert_eq]
  split
  · exact find?_changeFirst_other apart
  · -- What is added is no match, so it is passed.
    rw [List.find?_append, List.find?_singleton, new, if_neg (by decide), Option.or_none]

/-- An item is one from before, what a match was changed to, or the new one. -/
theorem mem_upsert {item : α} (member : item ∈ upsert here change fresh items) :
    item ∈ items ∨ (∃ old ∈ items, here old = true ∧ item = change old) ∨ item = fresh := by
  -- An item is changed or added.
  rw [upsert_eq] at member
  split at member
  · exact (mem_changeFirst member).imp_right .inl
  · rcases List.mem_append.1 member with old | new
    · exact .inl old
    · exact .inr (.inr (List.mem_singleton.1 new))

/-- Items that differ still do, if a change does not count and the new one comes for want of another. -/
theorem pairwise_upsert {differ : α → α → Prop} (different : items.Pairwise differ)
    (front : ∀ one other, differ one other → differ (change one) other)
    (back : ∀ one other, differ one other → differ one (change other))
    (last : ∀ item, here item = false → differ item fresh) : (upsert here change fresh items).Pairwise differ := by
  rw [upsert_eq]
  split
  · exact pairwise_changeFirst different front back
  · next absent =>
    -- No item is a match, so all of them differ from the new one.
    refine List.pairwise_append.2 ⟨different, List.pairwise_singleton .., fun item member added there => ?_⟩
    rw [List.mem_singleton.1 there]
    apply last
    rw [← Bool.not_eq_true]
    exact fun found => absent (List.any_eq_true.2 ⟨item, member, found⟩)

end Upsert

/-- A first match that passes a filter is the first match of what passes. -/
theorem find?_filter_of_pass {keep : α → Bool} {item : α} (found : items.find? here = some item)
    (passes : keep item = true) : (items.filter keep).find? here = some item := by
  induction items with
  | nil => cases found
  | cons head rest ih =>
    by_cases first : here head = true
    · rw [List.find?_cons_of_pos first] at found
      cases found
      rw [List.filter_cons_of_pos passes, List.find?_cons_of_pos first]
    · rw [List.find?_cons_of_neg first] at found
      -- What is filtered out in front of it was no match.
      cases kept : keep head with
      | true => rw [List.filter_cons_of_pos kept, List.find?_cons_of_neg first, ih found]
      | false => rw [List.filter_cons_of_neg (by simp [kept]), ih found]

end ConfigStore
