import ConfigStore.Proofs.Number.Leading
import ConfigStore.Proofs.Number.Positional
import ConfigStore.Proofs.Number.Reading
import ConfigStore.Value.Basic

/-! A number of 64 bits that is written with the fewest digits that read back is read as itself, bit for bit. -/

namespace ConfigStore

open Literal

variable {format : BinaryFormat} {exact number : Decimal} {magnitude digits : ℕ}

/-- What is chosen among the numbers of so many digits has the sign of the number and reads back. -/
theorem readsBack_of_shortestOf? (found : shortestOf? format magnitude exact digits = some number) :
    number.negative = exact.negative ∧ number.magnitude format = magnitude := by
  -- Whichever neighbour is looked at first, one of the two passed the test.
  rw [shortestOf?] at found
  simp only at found
  split at found
  · refine ⟨?_, by simpa [Decimal.readsBack] using List.find?_some found⟩
    have among := List.mem_of_find?_eq_some found
    simp only [List.mem_cons, List.not_mem_nil, or_false] at among
    rcases among with rfl | rfl <;> rfl
  · refine ⟨?_, by simpa [Decimal.readsBack] using List.find?_some found⟩
    have among := List.mem_of_find?_eq_some found
    simp only [List.mem_cons, List.not_mem_nil, or_false] at among
    rcases among with rfl | rfl <;> rfl

/-- A finite number written in full reads back. -/
theorem magnitude_ofMagnitude (negative : Bool) (bounded : magnitude < format.infinity) :
    (Decimal.ofMagnitude format negative magnitude).magnitude format = magnitude := by
  rw [Decimal.magnitude_eq, Decimal.size_ofMagnitude, size_mul, BinaryFormat.nearestTo_units bounded.le]

/-- The shortest decimal of a finite number has its sign and reads back. -/
theorem shortest_readsBack (negative : Bool) (bounded : magnitude < format.infinity) :
    (shortest format negative magnitude).negative = negative ∧
      (shortest format negative magnitude).magnitude format = magnitude := by
  -- What the search finds has passed the test, and for want of that the whole number is written.
  rw [shortest]
  cases found : (List.range mostDigits).findSome? fun fewer =>
      shortestOf? format magnitude (Decimal.ofMagnitude format negative magnitude) (fewer + 1) with
  | none => exact ⟨rfl, magnitude_ofMagnitude negative bounded⟩
  | some number =>
    obtain ⟨fewer, -, chosen⟩ := List.exists_of_findSome?_eq_some found
    exact readsBack_of_shortestOf? chosen

/-- A decimal in positional notation is read as the number nearest to it. -/
theorem leadingDouble_positional (number : Decimal) :
    leadingDouble (stripFraction number.positional) = number.toBinary .double := by
  obtain ⟨read, denotes, sign, value⟩ := exists_read number
  rw [leadingDouble_of_ofText? denotes, Literal.toBinary, Decimal.toBinary_eq, Decimal.toBinary_eq, sign,
    Decimal.size_congr sign value]

/-- Bits come back from the number that they spell, if it is one. -/
theorem Binary.toBits?_ofBits {bits : ℕ} (word : bits < 2 * format.signBit) :
    (ofBits format bits).toBits? = if bits % format.signBit ≤ format.infinity then some bits else none := by
  have parts := Nat.div_add_mod bits format.signBit
  have half : bits / format.signBit < 2 := Nat.div_lt_of_lt_mul (by rwa [Nat.mul_comm])
  -- The sign is the first bit, and the magnitude the others.
  have whole : (if bits / format.signBit % 2 == 1 then format.signBit else 0) + bits % format.signBit = bits := by
    rcases Nat.lt_succ_iff_lt_or_eq.1 half with zero | one
    · rw [Nat.lt_one_iff.1 zero, Nat.mul_zero, Nat.zero_add] at parts
      rw [Nat.lt_one_iff.1 zero, if_neg (by decide), Nat.zero_add]
      exact parts
    · rw [one, Nat.mul_one] at parts
      rw [one, if_pos (by decide)]
      exact parts
  rw [ofBits]
  split
  · next within =>
    rw [ofMagnitude]
    split
    · rw [toBits?, whole]
    · next past =>
      rw [toBits?, ← Nat.le_antisymm within (Nat.le_of_not_lt past), whole]
  · rfl

/-- A number of 64 bits that is stored is read as itself. -/
theorem leadingDouble_exactText (number : Binary .double) : leadingDouble (exactText number).toList = number := by
  -- A zero and what is not finite have texts of their own.
  obtain ⟨negative, magnitude, bounded⟩ | negative | _ := number
  · rw [exactText]
    split
    · next zero =>
      subst zero
      have positive : leadingDouble "0".toList = .finite false 0 (by decide) := by decide +kernel
      have negated : leadingDouble "-0".toList = .finite true 0 (by decide) := by decide +kernel
      cases negative
      · exact positive
      · exact negated
    · obtain ⟨sign, same⟩ := shortest_readsBack negative bounded
      rw [String.toList_ofList, leadingDouble_positional, Decimal.toBinary, sign, same, Binary.ofMagnitude, dif_pos bounded]
  · cases negative <;> decide +kernel
  · decide +kernel

/-- Numbers of 64 bits survive being stored: what is read of the value that a number is stored as is the number, a zero with
its sign and the infinities among them. So every word of 64 bits that spells a number comes back bit for bit, and any
other comes back as what is not a number. -/
theorem Value.toDouble_ofDouble :
    (∀ number : Binary .double, (ofDouble number).toDouble = number) ∧
    ∀ word : UInt64, (ofDouble (.ofBits .double word.toNat)).toDouble.toBits? =
      if word.toNat % 2 ^ 63 ≤ BinaryFormat.double.infinity then some word.toNat else none := by
  refine ⟨leadingDouble_exactText, fun word => ?_⟩
  have signBit : BinaryFormat.double.signBit = 2 ^ 63 := by decide
  have bits := @Binary.toBits?_ofBits .double word.toNat (by rw [signBit]; exact word.toNat_lt)
  rw [toDouble, ofDouble, leadingDouble_exactText, bits, signBit]

example : (Value.ofDouble (.ofBits .double 0x3FB999999999999A)).text = "0.1" := by decide +kernel

end ConfigStore
