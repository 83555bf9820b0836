import ConfigStore.Proofs.Number.Digits

/-! The texts of numbers: a sign or none, and then a word, or digits with an optional point among them and an optional
power of ten. These are exactly the texts that denote something when they are read as a whole. -/

namespace ConfigStore

open Literal

/-- Digits on one side of a point or on both, or without a point. -/
inductive Mantissa : List Char → Prop
  /-- Digits only. -/
  | whole {digits : List Char} (plain : Digits digits) (filled : digits ≠ []) : Mantissa digits
  /-- A point with a digit in front of it or behind it. -/
  | point {whole places : List Char} (plain : Digits whole) (behind : Digits places)
    (filled : whole ≠ [] ∨ places ≠ []) : Mantissa (whole ++ '.' :: places)

/-- Nothing, or a mark, a sign or none, and digits. -/
inductive Power : List Char → Prop
  /-- No power. -/
  | none : Power []
  /-- A power. -/
  | marked {mark : Char} {sign digits : List Char} (marks : isExponentMark mark = true) (signed : IsSign sign)
    (plain : Digits digits) (filled : digits ≠ []) : Power (mark :: (sign ++ digits))

/-- The text of a number without a sign. -/
inductive NumberBody : List Char → Prop
  /-- A word in any case. -/
  | word {text : List Char} (among : text.map Char.toLower ∈ infinityWords ++ [nanWord]) : NumberBody text
  /-- Digits and a power. -/
  | decimal {mantissa power : List Char} (digits : Mantissa mantissa) (behind : Power power) :
    NumberBody (mantissa ++ power)

/-- The text of a number. -/
inductive NumberText : List Char → Prop
  /-- A sign or none, and the number. -/
  | signed {sign text : List Char} (signed : IsSign sign) (body : NumberBody text) : NumberText (sign ++ text)

variable {digits whole places mantissa power text sign body front back : List Char} {negative : Bool} {value : Int}

/-- No digit is a mark or a point. -/
theorem Digits.not_mark (plain : Digits digits) :
    ∀ char ∈ digits, (!isExponentMark char) = true ∧ (char != '.') = true := by
  intro char member
  have digit := plain char member
  have other : ∀ mark : Char, mark.isDigit = false → char ≠ mark := by
    rintro mark plain rfl
    rw [digit] at plain
    cases plain
  have small := other 'e' (by decide)
  have large := other 'E' (by decide)
  have point := other '.' (by decide)
  simp [isExponentMark, small, large, point]

/-- A power begins with a mark if it is not empty. -/
theorem Power.head (power : Power text) : ∀ char ∈ text.head?, isExponentMark char = true := by
  cases power with
  | none => simp
  | marked marks _ _ _ => simpa using marks

/-- Behind a mark is no digit of the number. -/
theorem Power.undigited (power : Power text) : Undigited text := by
  intro char first
  have marks := power.head char first
  rw [isExponentMark, Bool.or_eq_true, beq_iff_eq, beq_iff_eq] at marks
  rcases marks with rfl | rfl <;> decide

/-- The power behind a mark is the value of its digits with its sign. -/
theorem exponent?_marked (mark : Char) (signed : IsSign sign) (plain : Digits digits) (filled : digits ≠ []) :
    exponent? (mark :: (sign ++ digits)) = some (signedValue sign digits) := by
  have all : allDigits digits = true := List.all_eq_true.2 plain
  simp [exponent?, splitSign_append signed fun _ => plain.unsigned, all, filled, signedValue]

/-- A power has a value. -/
theorem Power.exists_exponent? (power : Power text) : ∃ value, exponent? text = some value := by
  cases power with
  | none => exact ⟨0, rfl⟩
  | marked _ signed plain filled => exact ⟨_, exponent?_marked _ signed plain filled⟩

/-- Digits and a power are read as the number that they spell. -/
theorem decimal?_whole (negative : Bool) (plain : Digits digits) (filled : digits ≠ []) (behind : Power power)
    (raised : exponent? power = some value) :
    decimal? negative (digits ++ power) = some ⟨negative, digitsValue digits, value⟩ := by
  have marks : ∀ char ∈ power.head?, (!isExponentMark char) = false := fun char first => by
    rw [behind.head char first]
    rfl
  have digit : ∀ char ∈ digits, (!isExponentMark char) = true := fun char member => (plain.not_mark char member).1
  have point : ∀ char ∈ digits, (char != '.') = true := fun char member => (plain.not_mark char member).2
  have all : allDigits digits = true := List.all_eq_true.2 plain
  -- No point divides the digits, so there are no places.
  have front := List.takeWhile_eq_self_iff.2 point
  have behind := List.dropWhile_eq_nil_iff.2 point
  have blank : allDigits [] = true := by decide
  simp [decimal?, takeWhile_append_of_stop digit marks, dropWhile_append_of_stop digit marks, front, behind, all, blank,
    filled, raised]

/-- Digits with a point among them and a power are read as the number that they spell. -/
theorem decimal?_point (negative : Bool) (plain : Digits whole) (behind : Digits places)
    (filled : whole ≠ [] ∨ places ≠ []) (rest : Power power) (raised : exponent? power = some value) :
    decimal? negative (whole ++ '.' :: places ++ power) =
      some ⟨negative, digitsValue (whole ++ places), value - places.length⟩ := by
  have marks : ∀ char ∈ power.head?, (!isExponentMark char) = false := fun char first => by
    rw [rest.head char first]
    rfl
  -- What is in front of the mark goes up to the power, and what is in front of the point is the whole part.
  have digit : ∀ char ∈ whole ++ '.' :: places, (!isExponentMark char) = true := by
    intro char member
    rw [List.mem_append, List.mem_cons] at member
    rcases member with before | rfl | after
    · exact (plain.not_mark char before).1
    · decide
    · exact (behind.not_mark char after).1
  have stop : ∀ char ∈ ('.' :: places).head?, (char != '.') = false := by simp
  have point : ∀ char ∈ whole, (char != '.') = true := fun char member => (plain.not_mark char member).2
  have all : allDigits whole = true := List.all_eq_true.2 plain
  have more : allDigits places = true := List.all_eq_true.2 behind
  have filled : (whole.isEmpty && places.isEmpty) = false := by
    rw [Bool.and_eq_false_iff]
    simpa using filled
  simp only [decimal?, takeWhile_append_of_stop digit marks, dropWhile_append_of_stop digit marks,
    takeWhile_append_of_stop point stop, dropWhile_append_of_stop point stop]
  simp [all, more, filled, raised]

/-- What is read behind a mark is a power. -/
theorem power_of_exponent? (head : ∀ char ∈ text.head?, isExponentMark char = true)
    (raised : exponent? text = some value) : Power text := by
  cases text with
  | nil => exact .none
  | cons mark rest =>
    obtain ⟨sign, digits, rfl, signed, bare⟩ := exists_sign rest
    rw [exponent?, splitSign_append signed bare] at raised
    simp only at raised
    split at raised
    · cases raised
    · next proper =>
      rw [Bool.or_eq_true, not_or, List.isEmpty_iff, Bool.not_eq_true', Bool.not_eq_false] at proper
      exact .marked (head mark rfl) signed (List.all_eq_true.1 proper.2) proper.1

/-- Digits on both sides of what may be a point are those of a number if they are not none. -/
theorem mantissa_of_split {behind : List Char} (stop : ∀ char ∈ behind.head?, (char != '.') = false)
    (plain : Digits whole) (places : Digits (behind.drop 1)) (filled : whole ≠ [] ∨ behind.drop 1 ≠ []) :
    Mantissa (whole ++ behind) := by
  cases behind with
  | nil =>
    rw [List.append_nil]
    exact .whole plain (filled.resolve_right (by simp))
  | cons point places =>
    obtain rfl : point = '.' := by simpa using stop point rfl
    exact .point plain places filled

/-- What is read without a sign is the text of a number. -/
theorem body_of_decimal? {number : Decimal} (read : decimal? negative text = some number) : NumberBody text := by
  simp only [decimal?] at read
  split at read
  · cases read
  · next proper =>
    obtain ⟨value, raised, -⟩ := Option.map_eq_some_iff.1 read
    simp only [Bool.or_eq_true, Bool.and_eq_true, Bool.not_eq_true', not_or, Bool.not_eq_false, List.isEmpty_iff,
      not_and_or] at proper
    obtain ⟨⟨plain, places⟩, filled⟩ := proper
    have marks : ∀ char ∈ (text.dropWhile (!isExponentMark ·)).head?, isExponentMark char = true := by
      intro char first
      simpa using stop_dropWhile (!isExponentMark ·) text char first
    -- The text is divided at the mark, and what is in front of it at the point.
    rw [← List.takeWhile_append_dropWhile (p := (!isExponentMark ·)) (l := text)]
    refine .decimal ?_ (power_of_exponent? marks raised)
    rw [← List.takeWhile_append_dropWhile (p := (· != '.')) (l := text.takeWhile (!isExponentMark ·))]
    exact mantissa_of_split (stop_dropWhile _ _) (List.all_eq_true.1 plain) (List.all_eq_true.1 places) filled

/-- The digits of a number begin with a digit or a point. -/
theorem Mantissa.exists_cons (mantissa : Mantissa text) :
    ∃ first rest, text = first :: rest ∧ (first.isDigit = true ∨ first = '.') := by
  cases mantissa with
  | whole plain filled =>
    obtain ⟨first, rest, rfl⟩ := List.exists_cons_of_ne_nil filled
    exact ⟨first, rest, rfl, .inl (plain first List.mem_cons_self)⟩
  | @point whole places plain _ _ =>
    cases whole with
    | nil => exact ⟨'.', places, rfl, .inr rfl⟩
    | cons first rest => exact ⟨first, rest ++ '.' :: places, rfl, .inl (plain first List.mem_cons_self)⟩

/-- So there is at least that. -/
theorem Mantissa.filled (mantissa : Mantissa text) : text ≠ [] := by
  obtain ⟨first, rest, rfl, -⟩ := mantissa.exists_cons
  exact List.cons_ne_nil first rest

/-- A word begins with one of two letters. -/
theorem exists_cons_of_word (word : text.map Char.toLower ∈ infinityWords ++ [nanWord]) :
    ∃ first rest, text = first :: rest ∧ (first.toLower = 'i' ∨ first.toLower = 'n') := by
  cases text with
  | nil => exact absurd word (by decide)
  | cons first rest =>
    refine ⟨first, rest, rfl, ?_⟩
    simp only [infinityWords, nanWord, List.map_cons, List.cons_append, List.nil_append, List.mem_cons, List.cons.injEq,
      List.not_mem_nil, or_false] at word
    rcases word with long | short | nan
    · exact .inl long.1
    · exact .inl short.1
    · exact .inr nan.1

/-- The text of a number begins with no sign when it has none. -/
theorem NumberBody.unsigned (number : NumberBody text) : Unsigned text := by
  intro char begins
  cases number with
  | word among =>
    obtain ⟨first, rest, rfl, letter⟩ := exists_cons_of_word among
    obtain rfl := Option.some.inj begins
    constructor
    all_goals
      rintro rfl
      exact absurd letter (by decide)
  | decimal digits _ =>
    obtain ⟨first, rest, rfl, kind⟩ := digits.exists_cons
    obtain rfl := Option.some.inj begins
    constructor
    all_goals
      rintro rfl
      exact absurd kind (by decide)

/-- Digits and a power are read as a number. -/
theorem Mantissa.isSome_decimal? (mantissa : Mantissa front) (power : Power back) (negative : Bool) :
    (decimal? negative (front ++ back)).isSome := by
  obtain ⟨value, raised⟩ := power.exists_exponent?
  cases mantissa with
  | whole plain filled => rw [decimal?_whole negative plain filled power raised, Option.isSome_some]
  | point plain behind filled => rw [decimal?_point negative plain behind filled power raised, Option.isSome_some]

/-- A character that is no capital letter stays as it is. -/
theorem toLower_of_outside {char : Char} (outside : char.toNat < 65 ∨ 90 < char.toNat) : char.toLower = char := by
  have small : ¬('A'.val ≤ char.val ∧ char.val ≤ 'Z'.val) := by
    rintro ⟨above, below⟩
    have low : 65 ≤ char.toNat := above
    have high : char.toNat ≤ 90 := below
    omega
  exact dif_neg small

/-- No text starts with a word and with digits. -/
theorem not_word_and_mantissa {word : List Char} (among : word.map Char.toLower ∈ infinityWords ++ [nanWord])
    (proper : Mantissa mantissa) (start : word <+: text) (also : mantissa <+: text) : False := by
  obtain ⟨letter, _, rfl, begins⟩ := exists_cons_of_word among
  obtain ⟨first, _, rfl, kind⟩ := proper.exists_cons
  obtain ⟨_, rfl⟩ := start
  obtain ⟨rfl, -⟩ := List.cons_prefix_cons.1 also
  rcases kind with digit | rfl
  · have bounds : 48 ≤ first.toNat ∧ first.toNat ≤ 57 := Char.isDigit_iff_toNat.1 digit
    rw [toLower_of_outside (by omega)] at begins
    rcases begins with rfl | rfl
    all_goals exact absurd digit (by decide)
  · exact absurd begins (by decide)

/-- Digits and a power behind a sign denote the number that they are read as. -/
theorem ofText?_decimal {number : Decimal} (signed : IsSign sign) (proper : Mantissa mantissa) (behind : Power power)
    (read : decimal? (decide (sign = ['-'])) (mantissa ++ power) = some number) :
    ofText? (sign ++ (mantissa ++ power)) = some (.decimal number) := by
  have noWord : (mantissa ++ power).map Char.toLower ∉ infinityWords ++ [nanWord] := fun among =>
    not_word_and_mantissa among proper List.prefix_rfl (List.prefix_append ..)
  rw [List.mem_append, not_or, List.mem_singleton] at noWord
  rw [ofText?, splitSign_append signed fun _ => (NumberBody.decimal proper behind).unsigned]
  simp only [noWord.1, noWord.2, if_false, read, Option.map_some]

/-- Exactly the texts of numbers denote something. -/
theorem isSome_ofText?_iff (text : List Char) : (ofText? text).isSome ↔ NumberText text := by
  -- Each of the three answers is one kind of body, and a body that is no word is left to the digits.
  constructor
  · intro read
    obtain ⟨sign, body, rfl, signed, bare⟩ := exists_sign text
    refine .signed signed ?_
    rw [ofText?, splitSign_append signed bare] at read
    simp only at read
    split at read
    · next infinite => exact .word (List.mem_append_left _ infinite)
    · split at read
      · next nan => exact .word (List.mem_append_right _ (List.mem_singleton.2 nan))
      · rw [Option.isSome_map] at read
        exact body_of_decimal? (Option.some_get read).symm
  · rintro (@⟨sign, body, signed, number⟩)
    rw [ofText?, splitSign_append signed fun _ => number.unsigned]
    simp only
    split
    · rfl
    · next infinite =>
      split
      · rfl
      · next nan =>
        cases number with
        | word among =>
          rcases List.mem_append.1 among with long | short
          · exact absurd long infinite
          · exact absurd (List.mem_singleton.1 short) nan
        | decimal digits power =>
          rw [Option.isSome_map]
          exact digits.isSome_decimal? power _

end ConfigStore
