import Mathlib.Data.List.Induction
import ConfigStore.Proofs.Number.Digits
import ConfigStore.Value.Basic

/-! The whole number at the start of a text is that of all its digits, however many there are, clamped once. Counting
them is held in a range, and what is held there would be clamped all the same. -/

namespace ConfigStore

/-- A value is in a range. -/
def IntRange.Holds (range : IntRange) (value : Int) : Prop :=
  range.least ≤ value ∧ value ≤ range.greatest

/-- A text taken apart as far as a whole number at its start goes: blanks, a sign, digits, and the rest. -/
structure IntegerAt (text blanks sign digits rest : List Char) : Prop where
  /-- The parts are all of the text. -/
  whole : text = blanks ++ (sign ++ (digits ++ rest))
  /-- Blanks come first. -/
  blank : ∀ char ∈ blanks, isNumberSpace char = true
  /-- Then there is a sign at most. -/
  signed : IsSign sign
  /-- Without a sign, neither a blank nor a sign follows. -/
  bare : sign = [] → (∀ char ∈ (digits ++ rest).head?, isNumberSpace char = false) ∧ Unsigned (digits ++ rest)
  /-- The digits are digits. -/
  plain : Digits digits
  /-- No more digits follow. -/
  stop : Undigited rest

variable {text blanks sign digits rest : List Char}

/-- Every text is taken apart in that way. -/
theorem exists_integerAt (text : List Char) : ∃ blanks sign digits rest, IntegerAt text blanks sign digits rest := by
  obtain ⟨sign, unsigned, split, signed, bare⟩ := exists_sign (text.dropWhile isNumberSpace)
  have stops := stop_dropWhile isNumberSpace text
  have parts : unsigned.takeWhile Char.isDigit ++ unsigned.dropWhile Char.isDigit = unsigned :=
    List.takeWhile_append_dropWhile
  refine ⟨text.takeWhile isNumberSpace, sign, unsigned.takeWhile Char.isDigit, unsigned.dropWhile Char.isDigit, ?_,
    fun char member => List.mem_takeWhile_imp member, signed, fun empty => ?_, digits_takeWhile unsigned,
    stop_dropWhile Char.isDigit unsigned⟩
  · rw [parts, ← split, List.takeWhile_append_dropWhile]
  · rw [parts]
    rw [split, empty, List.nil_append] at stops
    exact ⟨stops, bare empty⟩

/-- A digit counted on what is held at the end of the range comes to what is held there of the whole. -/
theorem countDigit_min (value : Nat) (digit : Char) :
    countDigit (min value counterRange.greatest) digit =
      min ((value * 10 + (digit.toNat - '0'.toNat) : Nat) : Int) counterRange.greatest := by
  have range : counterRange = ⟨-9223372036854775808, 9223372036854775807⟩ := by decide
  rw [countDigit, range]
  simp only [IntRange.clamp]
  omega

/-- Digits count up to the end of the range. -/
theorem saturatingValue_eq (digits : List Char) :
    saturatingValue digits = min (digitsValue digits : Int) counterRange.greatest := by
  -- The last digit is counted on those in front of it.
  induction digits using List.reverseRecOn with
  | nil => decide
  | append_singleton front last ih =>
    have step : saturatingValue (front ++ [last]) = countDigit (saturatingValue front) last := by
      rw [saturatingValue, saturatingValue, List.foldl_append, List.foldl_cons, List.foldl_nil]
    rw [step, ih, countDigit_min, digitsValue_concat]

/-- What was counted is in the range, and so is its opposite. -/
theorem holds_saturatingValue (digits : List Char) :
    counterRange.Holds (saturatingValue digits) ∧ counterRange.Holds (-saturatingValue digits) := by
  have range : counterRange = ⟨-9223372036854775808, 9223372036854775807⟩ := by decide
  rw [saturatingValue_eq, range]
  simp only [IntRange.Holds]
  omega

/-- Clamping to 32 bits takes no notice of what is held at the end of the range of 64. -/
theorem clamp_saturatingValue (negative : Bool) (digits : List Char) :
    (IntRange.signed 32).clamp (if negative then -saturatingValue digits else saturatingValue digits) =
      (IntRange.signed 32).clamp (if negative then -digitsValue digits else digitsValue digits) := by
  have range : counterRange = ⟨-9223372036854775808, 9223372036854775807⟩ := by decide
  have narrow : IntRange.signed 32 = ⟨-2147483648, 2147483647⟩ := by decide
  rw [saturatingValue_eq, range, narrow]
  simp only [IntRange.clamp]
  split <;> omega

/-- A clamped value is in the range. -/
theorem holds_clamp {range : IntRange} (ordered : range.least ≤ range.greatest) (value : Int) :
    range.Holds (range.clamp value) := by
  simp only [IntRange.Holds, IntRange.clamp]
  omega

/-- A value of the range is not clamped. -/
theorem IntRange.Holds.clamp_eq {range : IntRange} {value : Int} (holds : range.Holds value) : range.clamp value = value := by
  obtain ⟨low, high⟩ := holds
  simp only [IntRange.clamp]
  omega

/-- The number at the start of a text is that of its digits behind its sign. -/
theorem IntegerAt.leadingInt_eq (parts : IntegerAt text blanks sign digits rest) :
    leadingInt text = (IntRange.signed 32).clamp (signedValue sign digits) := by
  -- A sign is no blank, so the blanks end in front of it.
  have stop : ∀ char ∈ (sign ++ (digits ++ rest)).head?, isNumberSpace char = false := by
    rcases parts.signed with rfl | rfl | rfl
    · exact (parts.bare rfl).1
    · simp
      decide
    · simp
      decide
  have unsigned : sign = [] → Unsigned (digits ++ rest) := fun empty => (parts.bare empty).2
  rw [leadingInt, parts.whole, dropWhile_append_of_stop parts.blank stop, splitSign_append parts.signed unsigned]
  simp only [takeWhile_append_of_stop parts.plain parts.stop]
  rw [clamp_saturatingValue, signedValue]
  simp only [decide_eq_true_eq]

/-- Digits behind a sign are taken apart into nothing else. -/
theorem integerAt_digits (signed : IsSign sign) (plain : Digits digits) : IntegerAt (sign ++ digits) [] sign digits [] where
  whole := by rw [List.append_nil, List.nil_append]
  blank := by simp
  signed := signed
  bare _ := by
    rw [List.append_nil]
    exact ⟨fun char first => isNumberSpace_of_isDigit (plain char (List.mem_of_mem_head? first)), plain.unsigned⟩
  plain := plain
  stop := by simp [Undigited]

/-- The text of a whole number is taken apart into its sign and its digits. -/
theorem integerAt_intText (value : Int) :
    IntegerAt (intText value).toList [] (if value < 0 then ['-'] else []) (Nat.toDigits 10 value.natAbs) [] := by
  have signed : IsSign (if value < 0 then ['-'] else []) := by
    split
    · exact .inr (.inr rfl)
    · exact .inl rfl
  have text : (intText value).toList = (if value < 0 then ['-'] else []) ++ Nat.toDigits 10 value.natAbs := by
    rw [intText, String.toList_ofList, Decimal.signed]
    split <;> simp_all
  rw [text]
  exact integerAt_digits signed (digits_toDigits value.natAbs)

/-- Reading the whole number at the start of a text is exact, and clamps once. Every text can be taken apart into blanks,
a sign, digits and the rest, and the number is that of the digits behind the sign, clamped to 32 bits. What is counted
on the way stays in a range of 64 bits, as does its opposite. A number of 32 bits that was written is read as itself. -/
theorem leadingInt_exact :
    (∀ text, ∃ blanks sign digits rest, IntegerAt text blanks sign digits rest) ∧
    (∀ text blanks sign digits rest, IntegerAt text blanks sign digits rest →
      leadingInt text = (IntRange.signed 32).clamp (signedValue sign digits) ∧
      (IntRange.signed 32).Holds (leadingInt text)) ∧
    (∀ digits, counterRange.Holds (saturatingValue digits) ∧ counterRange.Holds (-saturatingValue digits)) ∧
    ∀ value, (IntRange.signed 32).Holds value → (Value.ofInt value).toInt = value := by
  refine ⟨exists_integerAt, fun text blanks sign digits rest parts => ?_, holds_saturatingValue, fun value holds => ?_⟩
  · have exact := parts.leadingInt_eq
    exact ⟨exact, exact ▸ holds_clamp (by decide) _⟩
  · have same : signedValue (if value < 0 then ['-'] else []) (Nat.toDigits 10 value.natAbs) = value := by
      rw [signedValue, digitsValue_toDigits]
      by_cases below : value < 0
      · rw [if_pos below, if_pos rfl]
        omega
      · rw [if_neg below, if_neg (by decide)]
        omega
    rw [Value.toInt, Value.ofInt, (integerAt_intText value).leadingInt_eq, same, holds.clamp_eq]

/-- More digits than 64 bits can count, behind a minus and zeros, and the least number of 32 bits. -/
theorem leadingInt_exact_long :
    IntegerAt "\t -00099999999999999999999px".toList ['\t', ' '] ['-'] "00099999999999999999999".toList ['p', 'x'] ∧
      leadingInt "\t -00099999999999999999999px".toList = -2147483648 ∧
      (IntRange.signed 32).Holds (-2147483648) ∧ (Value.ofInt (-2147483648)).toInt = -2147483648 := by
  obtain ⟨-, exact, -, settles⟩ := leadingInt_exact
  have parts : IntegerAt "\t -00099999999999999999999px".toList ['\t', ' '] ['-'] "00099999999999999999999".toList
      ['p', 'x'] :=
    ⟨by decide, List.all_eq_true.1 (by decide), .inr (.inr rfl), by simp, List.all_eq_true.1 (by decide),
      by simp [Undigited]⟩
  have holds : (IntRange.signed 32).Holds (-2147483648) := by
    unfold IntRange.Holds
    decide
  exact ⟨parts, (exact _ _ _ _ _ parts).1.trans (by decide +kernel), holds, settles _ holds⟩

end ConfigStore
