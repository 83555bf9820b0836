import Mathlib.Data.String.Basic
import ConfigStore.Files.Operations
import ConfigStore.Proofs.Path.Pieces

/-! The name of a temporary file names something in one directory, and is as long as any other. -/

namespace ConfigStore.TemporaryName

variable (name : TemporaryName)

/-- A temporary name is its beginning and what was drawn. -/
theorem toList_text : name.text.toList = ['.', 't', 'm', 'p'] ++ name.drawn := by
  rw [text, String.toList_append]
  exact congrArg _ String.toList_ofList

/-- A character that is neither drawn nor in the beginning is not in the name. -/
theorem not_mem_text {char : Char} (start : char ∉ ['.', 't', 'm', 'p']) (other : char.isAlphanum = false) :
    char ∉ name.text.toList := by
  rw [toList_text, List.mem_append, not_or]
  refine ⟨start, fun member => ?_⟩
  rw [List.all_eq_true.1 name.plain char member] at other
  cases other

/-- A temporary name holds no slash. -/
theorem not_mem_slash : '/' ∉ name.text.toList :=
  name.not_mem_text (by decide) (by decide)

/-- A temporary name names something. -/
theorem names : Path.Names name.text := by
  have spelled := name.toList_text
  refine ⟨?_, ?_⟩
  · rw [← Bool.not_eq_true, Path.isVoid, Bool.or_eq_true, String.isEmpty_iff, beq_iff_eq]
    rintro (empty | dot)
    · simp [empty] at spelled
    · simp [dot] at spelled
  · intro up
    simp [up] at spelled

/-- A temporary name has ten bytes. -/
theorem utf8ByteSize_text : name.text.utf8ByteSize = 10 := by
  have bytes : ∀ drawn : List Char, drawn.all Char.isAlphanum = true → String.utf8Len drawn = drawn.length := by
    intro drawn plain
    induction drawn with
    | nil => rfl
    | cons char rest ih =>
      rw [List.all_cons, Bool.and_eq_true] at plain
      -- A letter or a digit is one byte.
      have single : char.utf8Size = 1 := by
        have small : char.toNat ≤ 127 := by
          have letter : ((decide (65 ≤ char.val ∧ char.val ≤ 90) || 97 ≤ char.val && char.val ≤ 122) ||
              48 ≤ char.val && char.val ≤ 57) = true := plain.1
          simp only [Bool.or_eq_true, Bool.and_eq_true, decide_eq_true_eq, UInt32.le_iff_toNat_le] at letter
          simp at letter
          omega
        rw [Char.utf8Size_eq_one_iff]
        exact UInt32.le_iff_toNat_le.2 small
      rw [String.utf8Len_cons, ih plain.2, single, List.length_cons]
  have start : ".tmp".utf8ByteSize = 4 := by decide
  rw [text, String.utf8ByteSize_append, start, String.utf8ByteSize_ofList, bytes _ name.plain, name.count]

/-- A temporary name is not too long. -/
theorem short : name.text.utf8ByteSize ≤ mostNameBytes := by
  rw [utf8ByteSize_text]
  decide

end ConfigStore.TemporaryName
