import Mathlib.Data.List.TakeWhile
import Mathlib.Data.Nat.Digits.Defs
import ConfigStore.Number.Literal
import ConfigStore.Text.Blank

/-! Runs of digits, with a sign in front of them or something else behind. -/

namespace ConfigStore

/-- Digits and nothing else, which may be none. -/
def Digits (text : List Char) : Prop :=
  ∀ char ∈ text, char.isDigit = true

/-- No digit is at the start of a text. -/
def Undigited (text : List Char) : Prop :=
  ∀ char ∈ text.head?, char.isDigit = false

/-- A plus, a minus, or nothing. -/
def IsSign (text : List Char) : Prop :=
  text = [] ∨ text = ['+'] ∨ text = ['-']

/-- No sign is at the start of a text. -/
def Unsigned (text : List Char) : Prop :=
  ∀ char ∈ text.head?, char ≠ '+' ∧ char ≠ '-'

/-- The value of digits behind a sign. -/
def signedValue (sign digits : List Char) : Int :=
  if sign = ['-'] then -digitsValue digits else digitsValue digits

variable {test : Char → Bool} {front behind digits sign text : List Char}

/-- What passes a test at the start of a text is taken as far as it goes. -/
theorem takeWhile_append_of_stop (all : ∀ char ∈ front, test char = true) (stop : ∀ char ∈ behind.head?, test char = false) :
    (front ++ behind).takeWhile test = front := by
  rw [List.takeWhile_append_of_pos all]
  cases behind with
  | nil => simp
  | cons next rest => rw [List.takeWhile_cons_of_neg (by simp [stop next rfl]), List.append_nil]

/-- The rest of it is left. -/
theorem dropWhile_append_of_stop (all : ∀ char ∈ front, test char = true) (stop : ∀ char ∈ behind.head?, test char = false) :
    (front ++ behind).dropWhile test = behind := by
  rw [List.dropWhile_append_of_pos all]
  cases behind with
  | nil => simp
  | cons next rest => rw [List.dropWhile_cons_of_neg (by simp [stop next rfl])]

/-- What is left behind what passes a test does not pass it. -/
theorem stop_dropWhile (test : Char → Bool) (text : List Char) :
    ∀ char ∈ (text.dropWhile test).head?, test char = false := by
  intro char first
  have stops := List.head?_dropWhile_not test text
  rw [Option.mem_def.1 first] at stops
  simpa using stops

/-- Digits at the start of a text. -/
theorem digits_takeWhile (text : List Char) : Digits (text.takeWhile Char.isDigit) :=
  fun _ member => List.mem_takeWhile_imp member

/-- No digit is a sign. -/
theorem Digits.unsigned (plain : Digits digits) : Unsigned digits := by
  intro char first
  have digit := plain char (List.mem_of_mem_head? first)
  constructor
  all_goals
    rintro rfl
    exact absurd digit (by decide)

/-- No digit is a blank. -/
theorem isNumberSpace_of_isDigit {char : Char} (digit : char.isDigit = true) : isNumberSpace char = false := by
  have bounds : 48 ≤ char.toNat ∧ char.toNat ≤ 57 := Char.isDigit_iff_toNat.1 digit
  have other : char ≠ ' ' := by
    rintro rfl
    exact absurd digit (by decide)
  simp [isNumberSpace, other]
  omega

/-- Without a sign in front there is none. -/
theorem splitSign_of_unsigned (unsigned : Unsigned text) : splitSign text = (false, text) := by
  cases text with
  | nil => rfl
  | cons first rest =>
    obtain ⟨plus, minus⟩ := unsigned first rfl
    simp [splitSign, plus, minus]

/-- A sign in front is split off. -/
theorem splitSign_append (signed : IsSign sign) (unsigned : sign = [] → Unsigned text) :
    splitSign (sign ++ text) = (decide (sign = ['-']), text) := by
  rcases signed with rfl | rfl | rfl
  · exact splitSign_of_unsigned (unsigned rfl)
  · rfl
  · rfl

/-- A text is a sign and the rest, where no sign is left if none was split off. -/
theorem exists_sign (text : List Char) :
    ∃ sign rest, text = sign ++ rest ∧ IsSign sign ∧ (sign = [] → Unsigned rest) := by
  by_cases plus : text.head? = some '+'
  · obtain ⟨rest, rfl⟩ := List.head?_eq_some_iff.1 plus
    exact ⟨['+'], rest, rfl, .inr (.inl rfl), fun unsigned => (by cases unsigned)⟩
  · by_cases minus : text.head? = some '-'
    · obtain ⟨rest, rfl⟩ := List.head?_eq_some_iff.1 minus
      exact ⟨['-'], rest, rfl, .inr (.inr rfl), fun unsigned => (by cases unsigned)⟩
    · refine ⟨[], text, rfl, .inl rfl, fun _ char first => ⟨?_, ?_⟩⟩
      · rintro rfl
        exact plus first
      · rintro rfl
        exact minus first

/-- One more digit counts as much as ten times those in front of it. -/
theorem digitsValue_concat (digits : List Char) (last : Char) :
    digitsValue (digits ++ [last]) = digitsValue digits * 10 + (last.toNat - '0'.toNat) := by
  rw [digitsValue, digitsValue, Nat.ofDigitChars_append, Nat.ofDigitChars_cons, Nat.ofDigitChars_nil, Nat.mul_comm]

/-- The digits of a number are digits. -/
theorem digits_toDigits (number : Nat) : Digits (Nat.toDigits 10 number) :=
  fun _ member => Nat.isDigit_of_mem_toDigits (by decide) (by decide) member

/-- They have its value. -/
theorem digitsValue_toDigits (number : Nat) : digitsValue (Nat.toDigits 10 number) = number :=
  Nat.ofDigitChars_ten_toDigits

end ConfigStore
