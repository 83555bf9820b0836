import Mathlib.Data.List.Basic
import Mathlib.Data.List.Induction
import ConfigStore.Proofs.Number.Exact
import ConfigStore.Proofs.Number.Literal

/-! Numbers in positional notation: the whole part in full, and the places behind the point without the zeros that end
them. The text is read as the number that it was written from. -/

namespace ConfigStore

open Literal

/-- The last so many digits of a number, where zeros stand in for those that it does not have. -/
def lastDigits : ℕ → ℕ → List Char
  | 0, _ => []
  | places + 1, number => lastDigits places (number / 10) ++ [(number % 10).digitChar]

/-- The places behind a point, and no point if there are none. -/
def fractionText (places : List Char) : List Char :=
  if places = [] then [] else '.' :: places

/-- Places that do not end in a zero. -/
structure Places (places : List Char) : Prop where
  /-- They are digits. -/
  plain : Digits places
  /-- The last of them says something. -/
  trimmed : places.getLast? ≠ some '0'

variable {test : Char → Bool} {front tail sign whole places power text : List Char} {negative : Bool} {value : ℤ}

/-- There are as many of them as are asked for. -/
theorem length_lastDigits (places number : ℕ) : (lastDigits places number).length = places := by
  induction places generalizing number with
  | zero => rfl
  | succ places ih => rw [lastDigits, List.length_append, ih, List.length_singleton]

/-- A number padded with zeros is its whole part and its last digits. -/
theorem padded_eq (places number : ℕ) :
    List.replicate (places + 1 - (Nat.toDigits 10 number).length) '0' ++ Nat.toDigits 10 number =
      Nat.toDigits 10 (number / 10 ^ places) ++ lastDigits places number := by
  -- The last digit is split off on both sides.
  induction places generalizing number with
  | zero =>
    have positive : 0 < (Nat.toDigits 10 number).length := Nat.length_toDigits_pos
    simp [lastDigits]
    omega
  | succ places ih =>
    have rest := ih (number / 10)
    rw [Nat.div_div_eq_div_mul, ← Nat.pow_succ'] at rest
    rw [lastDigits, ← List.append_assoc, ← rest]
    by_cases small : number < 10
    · have zero : number / 10 = 0 := by omega
      have same : number % 10 = number := by omega
      rw [zero, same, Nat.toDigits_of_lt_base small, Nat.toDigits_zero, List.length_singleton, List.length_singleton,
        Nat.add_sub_cancel, Nat.add_sub_cancel, ← List.replicate_succ']
    · rw [Nat.toDigits_of_base_le (by decide) (by omega : 10 ≤ number), List.length_append, List.length_singleton,
        Nat.add_sub_add_right, List.append_assoc]

/-- The last digits are digits. -/
theorem digits_lastDigits (places number : ℕ) : Digits (lastDigits places number) := by
  have padded : Digits (Nat.toDigits 10 (number / 10 ^ places) ++ lastDigits places number) := by
    rw [← padded_eq]
    intro char member
    rcases List.mem_append.1 member with zero | digit
    · rw [List.eq_of_mem_replicate zero]
      decide
    · exact digits_toDigits number char digit
  exact fun char member => padded char (List.mem_append_right _ member)

/-- The whole part and the last digits have the number's value. -/
theorem digitsValue_lastDigits (places number : ℕ) :
    digitsValue (Nat.toDigits 10 (number / 10 ^ places) ++ lastDigits places number) = number := by
  rw [← padded_eq, digitsValue, Nat.ofDigitChars_append, Nat.ofDigitChars_replicate_zero, Nat.mul_zero]
  exact digitsValue_toDigits number

/-- A number without a power of ten above one is its whole part, and a point and the last digits if there are any. -/
theorem positional_eq (negative : Bool) (coefficient places : ℕ) :
    Decimal.positional ⟨negative, coefficient, -places⟩ =
      Decimal.signed negative
        (Nat.toDigits 10 (coefficient / 10 ^ places) ++ fractionText (lastDigits places coefficient)) := by
  -- Without places the power of ten is one, and no point is written.
  rcases Nat.eq_zero_or_pos places with rfl | positive
  · simp [Decimal.positional, fractionText, lastDigits]
  · have below : ¬(0 : ℤ) ≤ -places := by omega
    have filled : lastDigits places coefficient ≠ [] := by
      intro empty
      have size := length_lastDigits places coefficient
      rw [empty, List.length_nil] at size
      omega
    have size : (Nat.toDigits 10 (coefficient / 10 ^ places) ++ lastDigits places coefficient).length - places =
        (Nat.toDigits 10 (coefficient / 10 ^ places)).length := by
      rw [List.length_append, length_lastDigits, Nat.add_sub_cancel]
    simp only [Decimal.positional, if_neg below, Int.natAbs_neg, Int.natAbs_natCast, padded_eq, size, List.take_left,
      List.drop_left]
    rw [fractionText, if_neg filled]

/-- What a test accepts at the end of a text is dropped as far as it goes. -/
theorem dropEnd_append (all : ∀ char ∈ tail, test char = true) (stop : ∀ char ∈ front.getLast?, test char = false) :
    dropEnd test (front ++ tail) = front := by
  have begins : ∀ char ∈ front.reverse.head?, test char = false := by rwa [List.head?_reverse]
  rw [dropEnd, List.reverse_append, dropWhile_append_of_stop (fun char member => all char (List.mem_reverse.1 member)) begins,
    List.reverse_reverse]

/-- Nothing is dropped when the last character is not accepted. -/
theorem dropEnd_eq_self (stop : ∀ char ∈ text.getLast?, test char = false) : dropEnd test text = text := by
  have blank : ∀ char ∈ ([] : List Char), test char = true := by simp
  have whole := dropEnd_append blank stop
  rwa [List.append_nil] at whole

/-- Digits are places with zeros behind. -/
theorem exists_places (plain : Digits text) : ∃ places count, text = places ++ List.replicate count '0' ∧ Places places := by
  -- The last digit is one more zero, or ends the places.
  induction text using List.reverseRecOn with
  | nil => exact ⟨[], 0, rfl, by simp [Digits], by simp⟩
  | append_singleton front last ih =>
    by_cases zero : last = '0'
    · obtain ⟨places, count, rfl, proper⟩ := ih fun char member => plain char (List.mem_append_left _ member)
      exact ⟨places, count + 1, by rw [zero, List.replicate_succ', List.append_assoc], proper⟩
    · exact ⟨front ++ [last], 0, by simp, plain, by simpa using zero⟩

/-- A digit is no point. -/
theorem Digits.ne_point (plain : Digits text) : ∀ char ∈ text, (char == '.') = false := by
  intro char member
  have other := (plain.not_mark char member).2
  rwa [bne, Bool.not_eq_true'] at other

/-- Without the zeros that end it, and without a point that nothing follows, a text is its whole part and its places. -/
theorem stripFraction_eq (signed : IsSign sign) (plain : Digits whole) (filled : whole ≠ []) (proper : Places places)
    (count : ℕ) : stripFraction (sign ++ (whole ++ fractionText (places ++ List.replicate count '0'))) =
      sign ++ (whole ++ fractionText places) := by
  have digit : ∀ char ∈ (sign ++ whole).getLast?, (char == '.') = false := by
    rw [List.getLast?_append_of_ne_nil _ filled]
    exact fun char last => plain.ne_point char (List.mem_of_getLast? last)
  by_cases blank : places ++ List.replicate count '0' = []
  · -- Nothing is behind the point, so there is blank.
    have empty := (List.append_eq_nil_iff.1 blank).1
    have signless : '.' ∉ sign := by rcases signed with rfl | rfl | rfl <;> decide
    have pointless : '.' ∉ whole := fun member => absurd (plain.ne_point _ member) (by decide)
    rw [blank, empty, stripFraction, if_neg (by simp [fractionText, signless, pointless])]
  · -- The zeros go first, and then the point if nothing is left behind it.
    have point : (sign ++ (whole ++ fractionText (places ++ List.replicate count '0'))).contains '.' = true := by
      simp [fractionText, blank]
    rw [stripFraction, if_pos point, fractionText, if_neg blank, ← List.cons_append, ← List.append_assoc, ← List.append_assoc]
    by_cases empty : places = []
    · subst empty
      rw [dropEnd_append (by simp) (by simp), dropEnd_append (by simp) digit]
      simp [fractionText]
    · have ends : (sign ++ whole ++ '.' :: places).getLast? = places.getLast? := by
        rw [List.getLast?_append_of_ne_nil _ (List.cons_ne_nil '.' places), List.getLast?_cons_of_ne_nil empty]
      have trimmed : ∀ char ∈ places.getLast?, (char == '0') = false := by
        intro char last
        rw [beq_eq_false_iff_ne]
        rintro rfl
        exact proper.trimmed last
      have pointless : ∀ char ∈ places.getLast?, (char == '.') = false :=
        fun char last => proper.plain.ne_point char (List.mem_of_getLast? last)
      rw [dropEnd_append (by simp) (ends ▸ trimmed), dropEnd_eq_self (ends ▸ pointless), fractionText, if_neg empty,
        List.append_assoc]

/-- Places behind a whole part are read together with it. -/
theorem ofText?_fractionText (signed : IsSign sign) (plain : Digits whole) (filled : whole ≠ []) (proper : Digits places)
    (behind : Power power) (raised : exponent? power = some value) :
    ofText? (sign ++ (whole ++ fractionText places ++ power)) =
      some (.decimal ⟨decide (sign = ['-']), digitsValue (whole ++ places), value - places.length⟩) := by
  by_cases empty : places = []
  · subst empty
    rw [fractionText, if_pos rfl, List.append_nil, ofText?_decimal signed (.whole plain filled) behind
      (decimal?_whole _ plain filled behind raised), List.length_nil, Nat.cast_zero, sub_zero]
  · rw [fractionText, if_neg empty, ofText?_decimal signed (.point plain proper (.inl filled)) behind
      (decimal?_point _ plain proper (.inl filled) behind raised)]

/-- Zeros behind digits are powers of ten. -/
theorem digitsValue_zeros (digits : List Char) (count : ℕ) :
    digitsValue (digits ++ List.replicate count '0') = 10 ^ count * digitsValue digits := by
  rw [digitsValue, Nat.ofDigitChars_append, Nat.ofDigitChars_replicate_zero, digitsValue]

/-- The minus in front of a number below zero. -/
def minus (negative : Bool) : List Char :=
  if negative then ['-'] else []

/-- It is a sign. -/
theorem isSign_minus (negative : Bool) : IsSign (minus negative) := by
  cases negative
  · exact .inl rfl
  · exact .inr (.inr rfl)

/-- What is written with so many places is a whole part in full and trimmed places, and with a power of ten behind it, it is
read as the number that was written, raised by that power. -/
theorem exists_written (negative : Bool) (coefficient count : ℕ) :
    ∃ places, Places places ∧
      stripFraction (Decimal.positional ⟨negative, coefficient, -count⟩) =
        minus negative ++ (Nat.toDigits 10 (coefficient / 10 ^ count) ++ fractionText places) ∧
      ∀ power value, Power power → exponent? power = some value →
        ∃ read, ofText? (stripFraction (Decimal.positional ⟨negative, coefficient, -count⟩) ++ power) = some (.decimal read) ∧
          read.negative = negative ∧ read.value = Decimal.value ⟨negative, coefficient, value - count⟩ := by
  obtain ⟨places, zeros, trimmed, proper⟩ := exists_places (digits_lastDigits count coefficient)
  have whole := digits_toDigits (coefficient / 10 ^ count)
  have filled : Nat.toDigits 10 (coefficient / 10 ^ count) ≠ [] := Nat.toDigits_ne_nil
  have text : stripFraction (Decimal.positional ⟨negative, coefficient, -count⟩) =
      minus negative ++ (Nat.toDigits 10 (coefficient / 10 ^ count) ++ fractionText places) := by
    have signed : ∀ text, Decimal.signed negative text = minus negative ++ text := fun text => by cases negative <;> rfl
    rw [positional_eq, signed, trimmed, stripFraction_eq (isSign_minus negative) whole filled proper]
  refine ⟨places, proper, text, fun power value behind raised => ?_⟩
  have sign : decide (minus negative = ['-']) = negative := by cases negative <;> rfl
  rw [text, List.append_assoc, ofText?_fractionText (isSign_minus negative) whole filled proper.plain behind raised, sign]
  refine ⟨_, rfl, rfl, ?_⟩
  -- The zeros that were dropped are the powers of ten by which the digits count for more.
  have size : count = places.length + zeros := by
    rw [← List.length_replicate (n := zeros) (a := '0'), ← List.length_append, ← trimmed, length_lastDigits]
  have same := digitsValue_lastDigits count coefficient
  rw [trimmed, ← List.append_assoc, digitsValue_zeros] at same
  have step : value - places.length = zeros + (value - count) := by omega
  simp only [Decimal.value, step, zpow_add₀ (by norm_num : (10 : ℚ) ≠ 0), zpow_natCast]
  have cast : (coefficient : ℚ) =
      10 ^ zeros * digitsValue (Nat.toDigits 10 (coefficient / 10 ^ count) ++ places) := by exact_mod_cast same.symm
  rw [cast]
  ring

/-- A number in positional notation is read as that number. -/
theorem exists_read (number : Decimal) :
    ∃ read, ofText? (stripFraction number.positional) = some (.decimal read) ∧ read.negative = number.negative ∧
      read.value = number.value := by
  obtain ⟨negative, coefficient, exponent⟩ := number
  by_cases raised : 0 ≤ exponent
  · -- The powers of ten are zeros behind the digits, and there is no point.
    obtain ⟨zeros, rfl⟩ := Int.eq_ofNat_of_zero_le raised
    have plain : Digits (Nat.toDigits 10 coefficient ++ List.replicate zeros '0') := by
      intro char member
      rcases List.mem_append.1 member with digit | zero
      · exact digits_toDigits coefficient char digit
      · rw [List.eq_of_mem_replicate zero]
        decide
    have filled : Nat.toDigits 10 coefficient ++ List.replicate zeros '0' ≠ [] :=
      List.append_ne_nil_of_left_ne_nil Nat.toDigits_ne_nil _
    have text : Decimal.positional ⟨negative, coefficient, zeros⟩ =
        minus negative ++ (Nat.toDigits 10 coefficient ++ List.replicate zeros '0') := by
      simp only [Decimal.positional, if_pos raised, Int.natAbs_natCast]
      cases negative <;> rfl
    have blank : Places [] := ⟨by simp [Digits], by simp⟩
    have kept := stripFraction_eq (isSign_minus negative) plain filled blank 0
    have read := ofText?_fractionText (isSign_minus negative) plain filled blank.plain .none rfl
    have sign : decide (minus negative = ['-']) = negative := by cases negative <;> rfl
    simp only [List.replicate_zero, List.append_nil, fractionText, if_true] at kept read
    rw [text, kept, read, sign, digitsValue_zeros, digitsValue_toDigits]
    refine ⟨_, rfl, rfl, ?_⟩
    simp only [Decimal.value, List.length_nil, Nat.cast_zero, sub_zero, zpow_zero, zpow_natCast]
    push_cast
    ring
  · obtain ⟨count, rfl⟩ : ∃ count : ℕ, exponent = -count := ⟨exponent.natAbs, by omega⟩
    obtain ⟨-, -, -, reads⟩ := exists_written negative coefficient count
    obtain ⟨read, denotes, sign, value⟩ := reads [] 0 .none rfl
    rw [List.append_nil] at denotes
    exact ⟨read, denotes, sign, by rw [value, zero_sub]⟩

end ConfigStore
