import ConfigStore.Proofs.Number.Integer
import ConfigStore.Proofs.Number.Leading
import ConfigStore.Value.Reading

/-! A value that is read strictly is read as the same number or truth value when it is read permissively. Strict reading
succeeds exactly on the texts that are a number or a truth value as a whole. -/

namespace ConfigStore

open Literal

/-- The texts of a whole number of a range. -/
inductive IntegerText (range : IntRange) : List Char → ℤ → Prop
  /-- A sign or none, and digits. -/
  | signed {sign digits : List Char} (signed : IsSign sign) (plain : Digits digits) (filled : digits ≠ [])
    (holds : range.Holds (signedValue sign digits)) : IntegerText range (sign ++ digits) (signedValue sign digits)

/-- The number that digits come to behind those that have been read, with a sign. -/
def signedRun (negative : Bool) (before : ℕ) (digits : List Char) : ℤ :=
  if negative then -(Nat.ofDigitChars 10 digits before : ℤ) else Nat.ofDigitChars 10 digits before

variable {range : IntRange} {negative : Bool} {before : ℕ} {number : ℤ} {sign digits text : List Char}

/-- One more digit is one step. -/
theorem signedRun_cons (negative : Bool) (before : ℕ) (digit : Char) (digits : List Char) :
    signedRun negative before (digit :: digits) = signedRun negative (10 * before + (digit.toNat - '0'.toNat)) digits := by
  simp only [signedRun, Nat.ofDigitChars_cons]

/-- More digits never make a number smaller. -/
theorem le_ofDigitChars (digits : List Char) (before : ℕ) : before ≤ Nat.ofDigitChars 10 digits before := by
  induction digits generalizing before with
  | nil => exact Nat.le_refl _
  | cons digit digits ih =>
    rw [Nat.ofDigitChars_cons]
    exact Nat.le_trans (by omega) (ih _)

/-- Where a number is in a range that holds zero, so is that of the digits in front of others. -/
theorem holds_signedRun_nil (zero : range.Holds 0) (whole : range.Holds (signedRun negative before digits)) :
    range.Holds (signedRun negative before []) := by
  -- The number so far is between zero and the whole one.
  have grows := le_ofDigitChars digits before
  simp only [IntRange.Holds, signedRun, Nat.ofDigitChars_nil] at *
  cases negative
  · simp only [Bool.false_eq_true, if_false] at *
    omega
  · simp only [if_true] at *
    omega

/-- The number so far with one more digit. -/
theorem signedRun_step {digit : Char} (plain : digit.isDigit = true) :
    (if negative then signedRun negative before [] * 10 - ((digit.toNat : ℤ) - '0'.toNat)
      else signedRun negative before [] * 10 + ((digit.toNat : ℤ) - '0'.toNat)) =
      signedRun negative (10 * before + (digit.toNat - '0'.toNat)) [] := by
  have bounds : 48 ≤ digit.toNat ∧ digit.toNat ≤ 57 := Char.isDigit_iff_toNat.1 plain
  have code : '0'.toNat = 48 := rfl
  simp only [signedRun, Nat.ofDigitChars_nil, code]
  split <;> omega

/-- Digits are read strictly just if all of them are digits and the number is in the range, which holds zero. -/
theorem digits_eq_ok_iff (zero : range.Holds 0) (held : range.Holds (signedRun negative before [])) :
    Strict.digits range negative (signedRun negative before []) digits = .ok number ↔
      Digits digits ∧ range.Holds (signedRun negative before digits) ∧ signedRun negative before digits = number := by
  induction digits generalizing before with
  | nil =>
    have blank : Digits [] := by simp [Digits]
    simp only [Strict.digits, blank, held, true_and, Except.ok.injEq]
  | cons digit digits ih =>
    rw [Strict.digits]
    by_cases plain : digit.isDigit = true
    · have all : Digits (digit :: digits) ↔ Digits digits := by simp [Digits, plain]
      have back := @holds_signedRun_nil range negative (10 * before + (digit.toNat - '0'.toNat)) digits zero
      simp only [plain, Bool.not_true, Bool.false_eq_true, if_false, signedRun_step plain, all, signedRun_cons]
      generalize 10 * before + (digit.toNat - '0'.toNat) = after at *
      -- Once the number so far is outside, the whole number is.
      by_cases within : range.Holds (signedRun negative after [])
      · rw [if_neg (not_lt.2 within.2), if_neg (not_lt.2 within.1)]
        exact ih within
      · refine iff_of_false (fun read => within ?_) fun read => within (back read.2.1)
        split at read
        · cases read
        · next below =>
          split at read
          · cases read
          · next above => exact ⟨not_lt.1 above, not_lt.1 below⟩
    · refine iff_of_false ?_ fun read => plain (read.1 digit List.mem_cons_self)
      simp [plain]

/-- Behind a sign at most, a whole number is digits. -/
theorem integer_append (signed : IsSign sign) (bare : sign = [] → Unsigned text) (filled : text ≠ [])
    (below : range.least < 0) :
    Strict.integer range (sign ++ text) = Strict.digits range (decide (sign = ['-'])) 0 text := by
  -- The sign is taken off, and without one the first character is none.
  obtain ⟨first, rest, rfl⟩ := List.exists_cons_of_ne_nil filled
  rcases signed with rfl | rfl | rfl
  · obtain ⟨plus, minus⟩ := bare rfl first rfl
    simp [Strict.integer, plus, minus]
  · simp [Strict.integer]
  · simp [Strict.integer, below]

/-- Digits behind a sign come to the value of both. -/
theorem signedRun_eq_signedValue (sign digits : List Char) :
    signedRun (decide (sign = ['-'])) 0 digits = signedValue sign digits := by
  simp only [signedRun, signedValue, decide_eq_true_eq, digitsValue]

/-- A whole number is read strictly just if its text is that of one in the range. -/
theorem integer_eq_ok_iff (below : range.least < 0) (above : 0 ≤ range.greatest) (text : List Char) :
    Strict.integer range text = .ok number ↔ IntegerText range text number := by
  -- Behind the sign, the run of digits starts at zero.
  have run : ∀ {sign digits}, IsSign sign → (sign = [] → Unsigned digits) → digits ≠ [] →
      (Strict.integer range (sign ++ digits) = .ok number ↔
        Digits digits ∧ range.Holds (signedValue sign digits) ∧ signedValue sign digits = number) := by
    intro sign digits signed bare filled
    have start : signedRun (decide (sign = ['-'])) 0 [] = 0 := by simp [signedRun]
    have zero : range.Holds 0 := ⟨below.le, above⟩
    have read := @digits_eq_ok_iff range (decide (sign = ['-'])) 0 number digits zero (start.symm ▸ zero)
    rwa [start, signedRun_eq_signedValue, ← integer_append signed bare filled below] at read
  constructor
  · intro read
    obtain ⟨sign, digits, rfl, signed, bare⟩ := exists_sign text
    have filled : digits ≠ [] := by
      rintro rfl
      rcases signed with rfl | rfl | rfl <;> cases read
    obtain ⟨plain, holds, rfl⟩ := (run signed bare filled).1 read
    exact .signed signed plain filled holds
  · rintro ⟨signed, plain, filled, holds⟩
    exact (run signed (fun _ => plain.unsigned) filled).2 ⟨plain, holds, rfl⟩

/-- The text of a whole number is read permissively as that number. -/
theorem IntegerText.leadingInt_eq (spelled : IntegerText (.signed 32) text number) : leadingInt text = number := by
  obtain ⟨signed, plain, -, holds⟩ := spelled
  rw [(integerAt_digits signed plain).leadingInt_eq, holds.clamp_eq]

/-- A text is read strictly as a floating point number just if it denotes one. -/
theorem float_eq_ok_iff {format : BinaryFormat} {number : Binary format} (text : List Char) :
    Strict.float format text = .ok number ↔ ∃ literal, ofText? text = some literal ∧ literal.toBinary format = number := by
  rw [Strict.float]
  cases text with
  | nil => exact iff_of_false (by simp) (by rintro ⟨literal, denotes, -⟩; cases denotes)
  | cons first rest =>
    rw [List.isEmpty_cons, if_neg (by decide)]
    cases ofText? (first :: rest) with
    | none => simp
    | some literal => simp

/-- A truth value is read strictly just if its text is one of the two words, and it is read permissively as the same. -/
theorem bool_eq_ok_iff (text : String) (truth : Bool) :
    Strict.bool text = .ok truth ↔ (text = "true" ∨ text = "false") ∧ sameName text Value.trueText = truth := by
  -- Of the two words, only one is the text of true in another case.
  have yes : sameName "true" Value.trueText = true := by decide +kernel
  have no : sameName "false" Value.trueText = false := by decide +kernel
  rw [Strict.bool]
  split
  · next same => simp [same, yes]
  · next other =>
    split
    · next same => simp [same, no]
    · next neither => simp [other, neither]

/-- What is found is wrapped, and a fault is told as one of the key. -/
theorem mapError_map_eq_ok_iff {α : Type} {result : Except ConversionFault α} {wrap : α → StrictValue}
    {report : ConversionFault → ConfigError} {found : StrictValue} :
    (wrap <$> result).mapError report = .ok found ↔ ∃ read, result = .ok read ∧ found = wrap read := by
  cases result with
  | error fault => simp [Except.mapError]
  | ok read => simp [Except.mapError, eq_comm]

/-- Strict reading and permissive reading agree where strict reading succeeds. A value is read strictly as a whole number just
if its text is a sign or none and digits, and the number is one of 32 bits, as a truth value just if its text is one of the
two words, and as a floating point number just if its text is that of a number to its end. What is found then is what is read
permissively. -/
theorem Value.read_agrees (value : Value) (name key : String) :
    (∀ found, value.read .int32 name key = .ok found ↔
      IntegerText (.signed 32) value.text.toList value.toInt ∧ found = .int value.toInt) ∧
    (∀ found, value.read .bool name key = .ok found ↔
      (value.text = "true" ∨ value.text = "false") ∧ found = .bool value.toBool) ∧
    ∀ found, value.read .double name key = .ok found ↔ NumberText value.text.toList ∧ found = .double value.toDouble := by
  refine ⟨fun found => mapError_map_eq_ok_iff.trans ?_, fun found => mapError_map_eq_ok_iff.trans ?_,
    fun found => mapError_map_eq_ok_iff.trans ?_⟩
  · have strict : ∀ number, Strict.integer (.signed 32) value.text.toList = .ok number ↔
        IntegerText (.signed 32) value.text.toList number := fun number => integer_eq_ok_iff (by decide) (by decide) _
    simp only [strict]
    constructor
    · rintro ⟨number, spelled, rfl⟩
      rw [toInt, spelled.leadingInt_eq]
      exact ⟨spelled, rfl⟩
    · rintro ⟨spelled, rfl⟩
      exact ⟨_, spelled, rfl⟩
  · simp only [bool_eq_ok_iff]
    constructor
    · rintro ⟨truth, ⟨word, rfl⟩, rfl⟩
      exact ⟨word, rfl⟩
    · rintro ⟨word, rfl⟩
      exact ⟨_, ⟨word, rfl⟩, rfl⟩
  · simp only [float_eq_ok_iff, ← isSome_ofText?_iff]
    constructor
    · rintro ⟨number, ⟨literal, denotes, rfl⟩, rfl⟩
      rw [toDouble, leadingDouble_of_ofText? denotes, denotes]
      exact ⟨rfl, rfl⟩
    · rintro ⟨denoting, rfl⟩
      obtain ⟨literal, denotes⟩ := Option.isSome_iff_exists.1 denoting
      exact ⟨_, ⟨literal, denotes, rfl⟩, by rw [toDouble, leadingDouble_of_ofText? denotes]⟩

example : ["+007", "-2147483648", "2147483648", "-", " 7"].map (fun text => ((Value.mk text).read .int32 "s" "k").toOption) =
    [some (.int 7), some (.int (-2147483648)), none, none, none] := by decide +kernel

end ConfigStore
