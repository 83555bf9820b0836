import Mathlib.Data.List.TakeWhile
import ConfigStore.Keyfile.Basic
import ConfigStore.Keyfile.Line
import ConfigStore.Proofs.Text.Separate

/-! The lines of a keyfile by their form: what a line has to look like in order to be a header or an entry. -/

namespace ConfigStore

/-- A line begins with a bracket, and its name goes up to the bracket that closes it first. -/
def HeaderLine (line : List Char) (name : String) : Prop :=
  ']' ∉ name.toList ∧ ∃ rest, line = '[' :: (name.toList ++ ']' :: rest)

/-- A line begins neither with an opening bracket nor with a number sign, and has a text behind its first equals
sign. -/
structure EntryLine (line : List Char) (entry : Entry) : Prop where
  /-- The key stands in front of an equals sign, and the value behind it. -/
  spelled : line = entry.key.toList ++ '=' :: entry.value.toList
  /-- That equals sign is the first one. -/
  first : '=' ∉ entry.key.toList
  /-- The value is not empty. -/
  filled : entry.value ≠ ""
  /-- The line does not begin like a header. -/
  noHeader : line.head? ≠ some '['
  /-- The line does not begin like a comment. -/
  noComment : line.head? ≠ some '#'

namespace Line

/-- A line says that a section begins when it has the form of a header. -/
theorem ofChars_eq_header_iff {line : List Char} {name : String} :
    ofChars line = .header name ↔ HeaderLine line name := by
  -- The name ends at the first closing bracket, and what is behind it does not count.
  constructor
  · intro told
    unfold ofChars at told
    split at told
    · next rest =>
      split at told
      · next closed =>
        obtain ⟨front, back, whole, absent⟩ := List.eq_append_cons_of_mem (List.contains_iff_mem.1 closed)
        subst whole
        rw [takeWhile_first absent] at told
        cases told
        exact ⟨by simpa using absent, back, by simp⟩
      · cases told
    · cases told
    · split at told <;> cases told
  · rintro ⟨absent, rest, rfl⟩
    simp [ofChars, takeWhile_first absent]

/-- A line says that a key has a value when it has the form of an entry. -/
theorem ofChars_eq_entry_iff {line : List Char} {key value : String} :
    ofChars line = .entry key value ↔ EntryLine line ⟨key, value⟩ := by
  constructor
  · intro told
    unfold ofChars at told
    split at told
    · split at told <;> cases told
    · cases told
    · next noHeader noComment =>
      split at told
      · next mark first rest found =>
        -- There is an equals sign, or nothing would have been left.
        have present : '=' ∈ line := Decidable.byContradiction fun absent => by
          have all := List.dropWhile_eq_nil_iff.2 fun char (member : char ∈ line) =>
            bne_iff_ne.2 fun same : char = '=' => absent (same ▸ member)
          simp [all] at found
        obtain ⟨front, back, rfl, absent⟩ := List.eq_append_cons_of_mem present
        rw [dropWhile_first absent, List.cons.injEq] at found
        obtain ⟨rfl, rfl⟩ := found
        rw [takeWhile_first absent] at told
        cases told
        refine ⟨by simp, by simpa using absent, by simp, ?_, ?_⟩
        · intro begins
          obtain ⟨tail, whole⟩ := List.head?_eq_some_iff.1 begins
          exact noHeader tail whole
        · intro begins
          obtain ⟨tail, whole⟩ := List.head?_eq_some_iff.1 begins
          exact noComment tail whole
      · cases told
  · rintro ⟨spelled, absent, filled, noHeader, noComment⟩
    obtain ⟨first, rest, behind⟩ := List.exists_cons_of_ne_nil (mt String.toList_eq_nil_iff.1 filled)
    have front := takeWhile_first absent value.toList
    have back := dropWhile_first absent value.toList
    simp only at spelled absent behind
    rw [← spelled] at front back
    unfold ofChars
    split
    · simp at noHeader
    · simp at noComment
    · rw [front, back, behind]
      simp [← behind]

end Line

end ConfigStore
