import ConfigStore.Number.Leading
import ConfigStore.Proofs.Number.Literal
import ConfigStore.Proofs.Text.Ascii
import ConfigStore.Proofs.Text.Line

/-! The number at the start of a text is the longest start of the text that is the text of a number. So what is cut off to
be read is read, and no start that is a number is passed over. -/

namespace ConfigStore

open Leading Literal Utf8

/-- A start of a text that has some form, and no shorter than any other that has it. -/
structure LongestStart (form : List Char → Prop) (text front : List Char) : Prop where
  /-- It starts the text. -/
  start : front <+: text
  /-- It has the form. -/
  proper : form front
  /-- Whatever else starts the text and has it is no longer. -/
  most : ∀ other, other <+: text → form other → other.length ≤ front.length

/-- How many characters the longest start of a text with some form has, and nothing if no start has it. -/
inductive LongestCount (form : List Char → Prop) (text : List Char) : Nat → Prop
  /-- Some start has the form. -/
  | found {front : List Char} (longest : LongestStart form text front) : LongestCount form text front.length
  /-- No start has it. -/
  | none (never : ∀ front, front <+: text → ¬form front) : LongestCount form text 0

/-- Digits with a point among them at the start of a text, behind which a power can only stand where they end. -/
structure MantissaAt (mantissa behind : List Char) : Prop where
  /-- They are the digits of a number. -/
  proper : Mantissa mantissa
  /-- Other digits there end no later, and a power behind them means that they end in the same place. -/
  most : ∀ other power, Mantissa other → Power power → other ++ power <+: mantissa ++ behind →
    other.length ≤ mantissa.length ∧ (power ≠ [] → other = mantissa ∧ power <+: behind)

/-- Digits and a power behind them. -/
def IsDecimal (text : List Char) : Prop :=
  ∃ mantissa power, text = mantissa ++ power ∧ Mantissa mantissa ∧ Power power

variable {digits whole places power text sign body mark run rest tail behind mantissa number : List Char}

/-- Either it is the length of such a start, or there is none and it is zero. -/
theorem LongestCount.found_or_none {form : List Char → Prop} {count : Nat} (longest : LongestCount form text count) :
    (∃ front, LongestStart form text front ∧ count = front.length) ∨
      ((∀ front, front <+: text → ¬form front) ∧ count = 0) := by
  cases longest with
  | found longest => exact .inl ⟨_, longest, rfl⟩
  | none never => exact .inr ⟨never, rfl⟩

/-- A number at the start of a text has the sign that the text has. -/
theorem sign_start (signed : IsSign sign) (unsigned : Unsigned body) (filled : body ≠ []) (marked : IsSign mark)
    (bare : mark = [] → Unsigned rest) (start : sign ++ body <+: mark ++ rest) : sign = mark ∧ body <+: rest := by
  obtain ⟨tail, whole⟩ := start
  obtain ⟨first, more, rfl⟩ := List.exists_cons_of_ne_nil filled
  have plain : Unsigned (first :: more ++ tail) := fun char begins => unsigned char begins
  rw [List.append_assoc] at whole
  have split := congrArg (fun text => (splitSign text).2) whole
  simp only [splitSign_append signed fun _ => plain, splitSign_append marked bare] at split
  subst split
  exact ⟨List.append_cancel_right whole, tail, rfl⟩

/-- Digits at the start of a text are among those that it starts with, and are all of them if something else follows. -/
theorem digits_start (plain : Digits digits) (stop : Undigited tail) (all : Digits run) (ends : Undigited behind)
    (start : digits ++ tail <+: run ++ behind) : digits <+: run ∧ (tail ≠ [] → digits = run ∧ tail <+: behind) := by
  -- Both runs are walked together until one of them ends.
  induction digits generalizing run with
  | nil =>
    refine ⟨List.nil_prefix, fun filled => ?_⟩
    cases run with
    | nil => exact ⟨rfl, start⟩
    | cons first rest =>
      obtain ⟨other, more, rfl⟩ := List.exists_cons_of_ne_nil filled
      obtain rfl := (List.cons_prefix_cons.1 start).1
      exact absurd (all other List.mem_cons_self) (Bool.eq_false_iff.1 (stop other rfl))
  | cons digit digits ih =>
    have first := plain digit List.mem_cons_self
    cases run with
    | nil =>
      have begins : digit ∈ behind.head? := List.head?_eq_some_iff.2 ⟨_, (List.prefix_iff_eq_append.1 start).symm⟩
      exact absurd first (Bool.eq_false_iff.1 (ends digit begins))
    | cons other rest =>
      rw [List.cons_append, List.cons_append] at start
      obtain ⟨rfl, next⟩ := List.cons_prefix_cons.1 start
      obtain ⟨among, past⟩ := ih (fun char member => plain char (List.mem_cons_of_mem _ member))
        (fun char member => all char (List.mem_cons_of_mem _ member)) next
      refine ⟨List.cons_prefix_cons.2 ⟨rfl, among⟩, fun filled => ?_⟩
      obtain ⟨rfl, rest⟩ := past filled
      exact ⟨rfl, rest⟩

/-- Without anything else they are among those that it starts with all the same. -/
theorem digits_start_alone (plain : Digits digits) (all : Digits run) (ends : Undigited behind)
    (start : digits <+: run ++ behind) : digits <+: run := by
  have whole : digits ++ [] <+: run ++ behind := by rwa [List.append_nil]
  exact (digits_start plain (by simp [Undigited]) all ends whole).1

/-- A text is the digits that it starts with and the rest. -/
theorem exists_run (text : List Char) : ∃ digits rest, text = digits ++ rest ∧ Digits digits ∧ Undigited rest :=
  ⟨_, _, List.takeWhile_append_dropWhile.symm, digits_takeWhile text, stop_dropWhile _ text⟩

/-- The sign in front is counted. -/
theorem signLength_append (signed : IsSign sign) (bare : sign = [] → Unsigned rest) :
    signLength (sign ++ rest) = sign.length := by
  rcases signed with rfl | rfl | rfl
  · cases rest with
    | nil => rfl
    | cons first more =>
      obtain ⟨plus, minus⟩ := bare rfl first rfl
      simp [signLength, plus, minus]
  · rfl
  · rfl

/-- The digits in front are counted. -/
theorem digitCount_append (plain : Digits digits) (stop : Undigited rest) : digitCount (digits ++ rest) = digits.length := by
  rw [digitCount, takeWhile_append_of_stop plain stop]

/-- A power at the start of a text has the sign behind the mark and digits from the run behind that. -/
theorem power_start (signed : IsSign sign) (plain : Digits digits) (filled : digits ≠ []) (marked : IsSign mark)
    (bare : mark = [] → Unsigned (run ++ rest)) (all : Digits run) (stop : Undigited rest)
    (start : sign ++ digits <+: mark ++ (run ++ rest)) : sign = mark ∧ digits <+: run := by
  obtain ⟨same, start⟩ := sign_start signed plain.unsigned filled marked bare start
  exact ⟨same, digits_start_alone plain all stop start⟩

/-- The exponent at the start of a text is the longest power there, which may be empty. -/
theorem exponentLength_longest (text : List Char) :
    ∃ power, LongestStart Power text power ∧ exponentLength text = power.length := by
  -- Where there is no exponent, the empty power is the only one.
  have empty : (∀ other, other <+: text → Power other → other = []) → exponentLength text = 0 →
      ∃ power, LongestStart Power text power ∧ exponentLength text = power.length := fun only nothing =>
    ⟨[], ⟨List.nil_prefix, .none, fun other start power => by rw [only other start power]⟩, nothing⟩
  cases text with
  | nil => exact empty (fun other start _ => List.prefix_nil.1 start) rfl
  | cons mark rest =>
    by_cases marks : isExponentMark mark = true
    · -- The mark is taken with the sign and the digits behind it, and not without a digit.
      obtain ⟨sign, behind, rfl, signed, bare⟩ := exists_sign rest
      obtain ⟨run, tail, rfl, all, stop⟩ := exists_run behind
      have counted : exponentLength (mark :: (sign ++ (run ++ tail))) =
          if run = [] then 0 else 1 + sign.length + run.length := by
        simp [exponentLength, marks, signLength_append signed bare, digitCount_append all stop]
      by_cases filled : run = []
      · refine empty (fun other start power => ?_) (by rw [counted, if_pos filled])
        cases power with
        | none => rfl
        | marked _ other plain more =>
          have among := (power_start other plain more signed bare all stop (List.cons_prefix_cons.1 start).2).2
          exact absurd (List.prefix_nil.1 (filled ▸ among)) more
      · refine ⟨mark :: (sign ++ run), ⟨?_, .marked marks signed all filled, fun other start power => ?_⟩, ?_⟩
        · rw [← List.append_assoc, ← List.cons_append]
          exact List.prefix_append ..
        · cases power with
          | none => exact Nat.zero_le _
          | marked _ other plain more =>
            obtain ⟨rfl, among⟩ := power_start other plain more signed bare all stop (List.cons_prefix_cons.1 start).2
            simpa using among.length_le
        · rw [counted, if_neg filled, List.length_cons, List.length_append]
          omega
    · refine empty (fun other start power => ?_) (by simp [exponentLength, marks])
      cases power with
      | none => rfl
      | marked more _ _ _ =>
        obtain ⟨rfl, -⟩ := List.cons_prefix_cons.1 start
        exact absurd more marks

/-- No power is in front of a point. -/
theorem Power.not_point (power : Power text) : ¬text <+: '.' :: rest ∨ text = [] := by
  cases power with
  | none => exact .inr rfl
  | marked marks _ _ _ =>
    refine .inl fun start => ?_
    obtain ⟨rfl, -⟩ := List.cons_prefix_cons.1 start
    exact absurd marks (by decide)

/-- Digits behind which no point follows end where the run of digits ends. -/
theorem mantissaAt_whole (plain : Digits digits) (filled : digits ≠ []) (stop : Undigited behind)
    (pointless : behind.head? ≠ some '.') : MantissaAt digits behind := by
  refine ⟨.whole plain filled, fun other power proper raised start => ?_⟩
  cases proper with
  | whole all _ =>
    obtain ⟨among, past⟩ := digits_start all raised.undigited plain stop start
    exact ⟨among.length_le, past⟩
  | @point whole places all _ _ =>
    have point : Undigited ('.' :: places ++ power) := by simp [Undigited]
    rw [List.append_assoc] at start
    have next := ((digits_start all point plain stop start).2 (by simp)).2
    exact absurd (List.head?_eq_some_iff.2 ⟨_, (List.prefix_iff_eq_append.1 next).symm⟩) pointless

/-- Digits on either side of a point end where the digits behind the point end. -/
theorem mantissaAt_point (plain : Digits whole) (behind : Digits places) (filled : whole ≠ [] ∨ places ≠ [])
    (stop : Undigited rest) : MantissaAt (whole ++ '.' :: places) rest := by
  refine ⟨.point plain behind filled, fun other power proper raised start => ?_⟩
  have point : ∀ text, Undigited ('.' :: text) := fun text => by simp [Undigited]
  rw [List.append_assoc] at start
  cases proper with
  | whole all _ =>
    obtain ⟨among, past⟩ := digits_start all raised.undigited plain (point _) start
    refine ⟨by simpa using Nat.le_trans among.length_le (Nat.le_add_right ..), fun more => ?_⟩
    exact absurd (past more).2 (raised.not_point.resolve_right more)
  | @point front back all more _ =>
    rw [List.append_assoc] at start
    obtain ⟨rfl, next⟩ := (digits_start all (point _) plain (point _) start).2 (by simp)
    obtain ⟨among, past⟩ := digits_start more raised.undigited behind stop (List.cons_prefix_cons.1 next).2
    refine ⟨by simpa using among.length_le, fun nonempty => ?_⟩
    obtain ⟨rfl, last⟩ := past nonempty
    exact ⟨rfl, last⟩

/-- Without a digit there or behind a point there, no text of a number in digits starts a text. -/
theorem not_mantissa_start (stop : Undigited text) (point : ∀ rest, text = '.' :: rest → Undigited rest)
    (proper : Mantissa mantissa) : ¬mantissa <+: text := by
  intro start
  have empty : Digits [] := by simp [Digits]
  have blank : ∀ {digits behind}, Digits digits → Undigited behind → digits <+: behind → digits = [] :=
    fun plain ends among => List.prefix_nil.1 (digits_start_alone plain empty ends among)
  cases proper with
  | whole plain filled => exact filled (blank plain stop start)
  | @point whole places plain behind filled =>
    obtain rfl := blank plain stop ((List.prefix_append ..).trans start)
    obtain ⟨rest, rfl⟩ := start
    have ends := point _ rfl
    exact filled.elim (fun nonempty => nonempty rfl) fun nonempty => nonempty (blank behind ends (List.prefix_append ..))

/-- The digits at the start of a text, with the point among them, are counted, if there are any. -/
theorem mantissaLength_longest (text : List Char) :
    (∃ mantissa behind, text = mantissa ++ behind ∧ mantissaLength text = mantissa.length ∧ MantissaAt mantissa behind) ∨
      (mantissaLength text = 0 ∧ ∀ other, Mantissa other → ¬other <+: text) := by
  obtain ⟨whole, behind, rfl, plain, stop⟩ := exists_run text
  have counted : mantissaLength (whole ++ behind) = whole.length + fractionLength whole.length behind := by
    simp [mantissaLength, digitCount_append plain stop]
  rw [counted]
  by_cases pointed : behind.head? = some '.'
  · -- The point is taken with the digits behind it, and alone only behind a digit.
    obtain ⟨rest, rfl⟩ := List.head?_eq_some_iff.1 pointed
    obtain ⟨places, rest, rfl, among, ends⟩ := exists_run rest
    simp only [fractionLength, digitCount_append among ends]
    by_cases filled : whole ≠ [] ∨ places ≠ []
    · refine .inl ⟨whole ++ '.' :: places, rest, by simp, ?_, mantissaAt_point plain among filled ends⟩
      have nonzero : whole.length + places.length ≠ 0 := by
        simpa [List.length_eq_zero_iff, ← not_and_or] using filled
      rw [if_neg nonzero, List.length_append, List.length_cons]
      omega
    · obtain ⟨rfl, rfl⟩ : whole = [] ∧ places = [] := by simpa [not_or] using filled
      refine .inr ⟨by simp, fun other proper => not_mantissa_start stop (fun tail same => ?_) proper⟩
      obtain rfl : rest = tail := by simpa using same
      exact ends
  · have zero : fractionLength whole.length behind = 0 := by
      cases behind with
      | nil => rfl
      | cons first rest =>
        have other : first ≠ '.' := fun same => pointed (by rw [same, List.head?_cons])
        simp [fractionLength, other]
    by_cases filled : whole = []
    · subst filled
      refine .inr ⟨by rw [zero, List.length_nil], fun other proper => not_mantissa_start stop (fun rest same => ?_) proper⟩
      exact absurd (List.head?_eq_some_iff.2 ⟨rest, same⟩) pointed
    · exact .inl ⟨whole, behind, rfl, by rw [zero, Nat.add_zero], mantissaAt_whole plain filled stop pointed⟩

/-- The digits and the exponent at the start of a text are the longest number in digits there. -/
theorem decimalLength_longest (text : List Char) : LongestCount IsDecimal text (decimalLength text) := by
  rcases mantissaLength_longest text with ⟨mantissa, behind, rfl, counted, ends⟩ | ⟨counted, never⟩
  · obtain ⟨power, longest, exponent⟩ := exponentLength_longest behind
    have same : decimalLength (mantissa ++ behind) = (mantissa ++ power).length := by
      simp [decimalLength, counted, ends.proper.filled, exponent]
    rw [same]
    refine .found ⟨(List.prefix_append_right_inj mantissa).2 longest.start, ⟨_, _, rfl, ends.proper, longest.proper⟩, ?_⟩
    rintro - start ⟨other, raised, rfl, proper, more⟩
    obtain ⟨shorter, past⟩ := ends.most other raised proper more start
    rw [List.length_append, List.length_append]
    -- Without a power the digits alone are compared, and with one they are the same.
    by_cases unraised : raised = []
    · rw [unraised, List.length_nil]
      omega
    · obtain ⟨rfl, next⟩ := past unraised
      exact Nat.add_le_add_left (longest.most raised next more) _
  · have zero : decimalLength text = 0 := by simp [decimalLength, counted]
    rw [zero]
    refine .none fun front start => ?_
    rintro ⟨mantissa, power, rfl, proper, -⟩
    exact never mantissa proper ((List.prefix_append ..).trans start)

/-- The word that is found at the start of a text is there, and no longer word is. -/
theorem word?_longest {word : List Char} (found : word? text = some word) :
    LongestStart (fun front => front.map Char.toLower ∈ infinityWords ++ [nanWord]) text (text.take word.length) ∧
      (text.take word.length).length = word.length := by
  have sorted : (infinityWords ++ [nanWord]).Pairwise fun first second => second.length ≤ first.length := by decide
  obtain ⟨starts, earlier, later, split, other⟩ := List.find?_eq_some_iff_append.1 found
  rw [beq_iff_eq] at starts
  have size : (text.take word.length).length = word.length := by simpa using congrArg List.length starts
  refine ⟨⟨List.take_prefix .., ?_, fun front start among => ?_⟩, size⟩
  · rw [starts, split]
    exact List.mem_append_right _ List.mem_cons_self
  · -- A word that stands earlier in the list does not start the text, and the later ones are no longer.
    have there : (text.take (front.map Char.toLower).length).map Char.toLower = front.map Char.toLower := by
      rw [List.length_map, ← List.prefix_iff_eq_take.1 start]
    have same : (front.map Char.toLower).length = front.length := List.length_map _
    rw [size, ← same]
    rw [split] at among sorted
    rcases List.mem_append.1 among with before | behind
    · have missing := other _ before
      rw [there, beq_self_eq_true] at missing
      cases missing
    · rcases List.mem_cons.1 behind with same | after
      · rw [same]
      · exact (List.pairwise_cons.1 (List.pairwise_append.1 sorted).2.1).1 _ after

/-- Where no word is found, none is at the start of the text. -/
theorem not_word_of_word?_none (missing : word? text = none) (start : body <+: text) :
    body.map Char.toLower ∉ infinityWords ++ [nanWord] := by
  intro among
  have other := List.find?_eq_none.1 missing _ among
  rw [List.length_map, ← List.prefix_iff_eq_take.1 start, beq_self_eq_true] at other
  exact other rfl

/-- The text of a number has more than a sign. -/
theorem NumberBody.filled (number : NumberBody body) : body ≠ [] := by
  cases number with
  | word among =>
    obtain ⟨first, rest, rfl, -⟩ := exists_cons_of_word among
    exact List.cons_ne_nil first rest
  | decimal digits _ => exact List.append_ne_nil_of_left_ne_nil digits.filled _

/-- The number at the start of a text is the longest there. -/
theorem numberLength_longest (text : List Char) : LongestCount NumberText text (numberLength text) := by
  obtain ⟨sign, unsigned, rfl, signed, bare⟩ := exists_sign text
  -- A number has the sign of the text, and the rest of it starts what is behind the sign.
  have inner : ∀ front, front <+: sign ++ unsigned → NumberText front →
      ∃ body, front = sign ++ body ∧ body <+: unsigned ∧ NumberBody body := by
    rintro - start ⟨other, number⟩
    obtain ⟨rfl, rest⟩ := sign_start other number.unsigned number.filled signed bare start
    exact ⟨_, rfl, rest, number⟩
  have outer : ∀ {body}, LongestStart NumberBody unsigned body →
      LongestCount NumberText (sign ++ unsigned) (sign.length + body.length) := by
    intro body longest
    rw [← List.length_append]
    refine .found ⟨(List.prefix_append_right_inj sign).2 longest.start, .signed signed longest.proper, ?_⟩
    intro front start number
    obtain ⟨other, rfl, rest, proper⟩ := inner front start number
    rw [List.length_append, List.length_append]
    exact Nat.add_le_add_left (longest.most other rest proper) _
  rw [numberLength]
  simp only [signLength_append signed bare, List.drop_left]
  split
  · next word found =>
    -- Where a word starts the text, no digits do.
    obtain ⟨longest, size⟩ := word?_longest found
    rw [← size]
    refine outer ⟨longest.start, .word longest.proper, fun other start number => ?_⟩
    cases number with
    | word among => exact longest.most other start among
    | decimal proper _ =>
      exact (not_word_and_mantissa longest.proper proper longest.start ((List.prefix_append ..).trans start)).elim
  · next missing =>
    -- Where no word does, only digits can, and without any the sign is given back.
    rcases (decimalLength_longest unsigned).found_or_none with ⟨front, longest, same⟩ | ⟨never, uncounted⟩
    · obtain ⟨mantissa, power, rfl, proper, more⟩ := longest.proper
      have filled : (mantissa ++ power).length ≠ 0 := fun zero =>
        (NumberBody.decimal proper more).filled (List.length_eq_zero_iff.1 zero)
      rw [same, if_neg filled]
      refine outer ⟨longest.start, .decimal proper more, fun other start number => ?_⟩
      cases number with
      | word among => exact absurd among (not_word_of_word?_none missing start)
      | decimal digits raised => exact longest.most _ start ⟨_, _, rfl, digits, raised⟩
    · rw [if_pos uncounted]
      refine .none fun front start number => ?_
      obtain ⟨body, rfl, rest, proper⟩ := inner front start number
      cases proper with
      | word among => exact not_word_of_word?_none missing rest among
      | decimal proper power => exact never _ rest ⟨_, _, rfl, proper, power⟩

/-- Digits are characters of one byte. -/
theorem Digits.ascii (plain : Digits digits) : Ascii digits := by
  intro char member
  have bounds : 48 ≤ char.toNat ∧ char.toNat ≤ 57 := Char.isDigit_iff_toNat.1 (plain char member)
  omega

/-- So is a sign. -/
theorem IsSign.ascii (signed : IsSign sign) : Ascii sign := by
  rcases signed with rfl | rfl | rfl
  all_goals simp [Ascii]

/-- So are the letters of a word. -/
theorem ascii_of_word (among : text.map Char.toLower ∈ infinityWords ++ [nanWord]) : Ascii text := by
  have small : ∀ word ∈ infinityWords ++ [nanWord], ∀ char ∈ word, char.toNat < 0x80 := by
    simp [infinityWords, nanWord]
  intro char member
  by_contra large
  -- Another character would stand in the word as it is.
  have there := List.mem_map_of_mem (f := Char.toLower) member
  rw [toLower_of_outside (.inr (by omega))] at there
  exact large (small _ among char there)

/-- The text of a number has characters of one byte only. -/
theorem NumberText.ascii (number : NumberText text) : Ascii text := by
  obtain ⟨signed, body⟩ := number
  refine signed.ascii.append ?_
  cases body with
  | word among => exact ascii_of_word among
  | decimal mantissa power =>
    refine Ascii.append ?_ ?_
    · cases mantissa with
      | whole plain _ => exact plain.ascii
      | point plain behind _ => exact plain.ascii.append (.cons (by decide) behind.ascii)
    · cases power with
      | none => simp [Ascii]
      | marked marks signed plain _ =>
        refine .cons ?_ (signed.ascii.append plain.ascii)
        rw [isExponentMark, Bool.or_eq_true, beq_iff_eq, beq_iff_eq] at marks
        rcases marks with rfl | rfl <;> decide

/-- The count is at most that of the bytes. -/
theorem leadingLength_le (bytes : List UInt8) : leadingLength bytes ≤ bytes.length := by
  have size : (byteChars bytes).length = bytes.length := List.length_map _
  rw [leadingLength, ← size]
  rcases (numberLength_longest (byteChars bytes)).found_or_none with ⟨front, longest, same⟩ | ⟨-, uncounted⟩
  · rw [same]
    exact longest.start.length_le
  · rw [uncounted]
    exact Nat.zero_le _

/-- The longest number among the bytes of a text is the longest one in the text. -/
theorem longestStart_byteChars_iff (text front : List Char) :
    LongestStart NumberText (byteChars (encodeChars text)) front ↔ LongestStart NumberText text front := by
  have same : ∀ {front}, NumberText front → (front <+: byteChars (encodeChars text) ↔ front <+: text) :=
    fun number => number.ascii.prefix_byteChars_iff text
  constructor
  · rintro ⟨start, number, most⟩
    exact ⟨(same number).1 start, number, fun other begins proper => most other ((same proper).2 begins) proper⟩
  · rintro ⟨start, number, most⟩
    exact ⟨(same number).2 start, number, fun other begins proper => most other ((same proper).1 begins) proper⟩

/-- Two longest starts of a text are the same. -/
theorem LongestStart.unique {form : List Char → Prop} {front other : List Char} (longest : LongestStart form text front)
    (also : LongestStart form text other) : front = other := by
  have size := Nat.le_antisymm (also.most front longest.start longest.proper) (longest.most other also.start also.proper)
  exact (List.prefix_of_prefix_length_le longest.start also.start (Nat.le_of_eq size)).eq_of_length size

/-- The bytes of the number at the start of a text are counted. -/
theorem leadingLength_longest (text : List Char) : LongestCount NumberText text (leadingLength (encodeChars text)) := by
  rw [leadingLength]
  rcases (numberLength_longest (byteChars (encodeChars text))).found_or_none with ⟨front, longest, same⟩ | ⟨never, uncounted⟩
  · rw [same]
    exact .found ((longestStart_byteChars_iff text front).1 longest)
  · rw [uncounted]
    exact .none fun front start number => never front ((number.ascii.prefix_byteChars_iff text).2 start) number

/-- A text that is a number is the longest one at its start. -/
theorem NumberText.longest_self (number : NumberText text) : LongestStart NumberText text text :=
  ⟨List.prefix_rfl, number, fun _ start _ => start.length_le⟩

/-- The number at the start of a text ends where the count ends. -/
theorem LongestStart.leadingLength_eq (longest : LongestStart NumberText text number) :
    leadingLength (encodeChars text) = (encodeChars number).length := by
  rw [longest.proper.ascii.length_encodeChars]
  rcases (leadingLength_longest text).found_or_none with ⟨front, other, same⟩ | ⟨never, -⟩
  · rw [same, longest.unique other]
  · exact absurd longest.proper (never number longest.start)

/-- That many bytes of the text are the number. -/
theorem LongestStart.takeBytes_eq (longest : LongestStart NumberText text number) :
    takeBytes (leadingLength (encodeChars text)) text = number := by
  rw [longest.leadingLength_eq]
  obtain ⟨rest, rfl⟩ := longest.start
  exact takeBytes_append number rest

/-- What is counted is the longest number at the start of the text, if anything is. -/
theorem longestStart_takeBytes (filled : leadingLength (encodeChars text) ≠ 0) :
    LongestStart NumberText text (takeBytes (leadingLength (encodeChars text)) text) := by
  rcases (leadingLength_longest text).found_or_none with ⟨front, longest, -⟩ | ⟨-, uncounted⟩
  · rwa [longest.takeBytes_eq]
  · exact absurd uncounted filled

/-- The number at the start of a text behind blanks is what is read. -/
theorem leadingDouble_of_longest (longest : LongestStart NumberText (text.dropWhile isNumberSpace) number) :
    ∃ literal, ofText? number = some literal ∧ leadingDouble text = literal.toBinary .double := by
  obtain ⟨literal, denotes⟩ := Option.isSome_iff_exists.1 ((isSome_ofText?_iff number).2 longest.proper)
  refine ⟨literal, denotes, ?_⟩
  have taken := longest.takeBytes_eq
  have filled : leadingLength (encodeChars (text.dropWhile isNumberSpace)) ≠ 0 := by
    intro zero
    rw [zero, takeBytes_zero] at taken
    rw [← taken] at denotes
    cases denotes
  obtain ⟨count, counted⟩ := Nat.exists_eq_succ_of_ne_zero filled
  rw [counted] at taken
  rw [leadingDouble, encode_ofList, counted]
  simp only [taken, denotes]

/-- The text of a number does not begin with a blank. -/
theorem NumberText.unblanked (number : NumberText text) : ∀ char ∈ text.head?, isNumberSpace char = false := by
  obtain ⟨signed, body⟩ := number
  rcases signed with rfl | rfl | rfl
  · intro char begins
    cases body with
    | word among =>
      obtain ⟨first, rest, rfl, letter⟩ := exists_cons_of_word among
      obtain rfl := Option.some.inj begins
      -- A blank is no capital letter, so it would be the letter itself.
      by_contra blank
      have small : first.toNat ≤ 32 := by
        simp only [isNumberSpace, Bool.not_eq_false, Bool.or_eq_true, beq_iff_eq, Bool.and_eq_true, decide_eq_true_eq] at blank
        rcases blank with rfl | ⟨-, high⟩
        · decide
        · omega
      rw [toLower_of_outside (by omega)] at letter
      rcases letter with rfl | rfl
      all_goals exact absurd small (by decide)
    | decimal digits _ =>
      obtain ⟨first, rest, rfl, kind⟩ := digits.exists_cons
      obtain rfl := Option.some.inj begins
      rcases kind with digit | rfl
      · exact isNumberSpace_of_isDigit digit
      · decide
  · simp
    decide
  · simp
    decide

/-- A text that denotes a number as a whole is read as that number. -/
theorem leadingDouble_of_ofText? {literal : Literal} (denotes : ofText? text = some literal) :
    leadingDouble text = literal.toBinary .double := by
  have number : NumberText text := (isSome_ofText?_iff text).1 (by rw [denotes, Option.isSome_some])
  have whole : text.dropWhile isNumberSpace = text := by
    cases text with
    | nil => rfl
    | cons first rest => exact List.dropWhile_cons_of_neg (by rw [number.unblanked first rfl]; decide)
  have longest : LongestStart NumberText (text.dropWhile isNumberSpace) text := by
    rw [whole]
    exact number.longest_self
  obtain ⟨other, same, read⟩ := leadingDouble_of_longest longest
  rw [read, Option.some.inj (same.symm.trans denotes)]

/-- Where no number is at the start of a text behind blanks, zero is read. -/
theorem leadingDouble_of_never (never : ∀ front, front <+: text.dropWhile isNumberSpace → ¬NumberText front) :
    leadingDouble text = .zero .double := by
  rw [leadingDouble, encode_ofList]
  rcases (leadingLength_longest (text.dropWhile isNumberSpace)).found_or_none with ⟨front, longest, -⟩ | ⟨-, uncounted⟩
  · exact absurd longest.proper (never front longest.start)
  · rw [uncounted]
    rfl

/-- Finding the number at the start of a text takes exactly the longest literal. The count is that of the longest start of
the text that is the text of a number, or zero if no start is one. It ends between characters, so that many bytes are the
literal, and it never passes the end, whatever the bytes. What is read as a whole is exactly a number's text, so
the literal behind blanks always denotes something, and zero stands in only where there is no literal. -/
theorem leadingLength_takes_longest :
    (∀ text, LongestCount NumberText text (leadingLength (encodeChars text))) ∧
    (∀ text number, LongestStart NumberText text number →
      leadingLength (encodeChars text) = (encodeChars number).length ∧
      takeBytes (leadingLength (encodeChars text)) text = number) ∧
    (∀ bytes, leadingLength bytes ≤ bytes.length) ∧
    (∀ text, (ofText? text).isSome ↔ NumberText text) ∧
    (∀ text number, LongestStart NumberText (text.dropWhile isNumberSpace) number →
      ∃ literal, ofText? number = some literal ∧ leadingDouble text = literal.toBinary .double) ∧
    ∀ text, (∀ front, front <+: text.dropWhile isNumberSpace → ¬NumberText front) → leadingDouble text = .zero .double :=
  ⟨leadingLength_longest, fun _ _ longest => ⟨longest.leadingLength_eq, longest.takeBytes_eq⟩, leadingLength_le,
    isSome_ofText?_iff, fun _ _ => leadingDouble_of_longest, fun _ => leadingDouble_of_never⟩

example : ["infinit", "5.e", ".5E-", ".", "+", "1e+05x"].map (fun text => leadingLength (encodeChars text.toList)) =
    [3, 2, 2, 0, 0, 5] := by decide +kernel

/-- A mark and a sign without digits are given back, and a character of more bytes follows. -/
theorem leadingLength_takes_longest_in_front :
    LongestStart NumberText "-1.5e+é".toList "-1.5".toList ∧ leadingLength (encodeChars "-1.5e+é".toList) = 4 ∧
      ∃ literal, ofText? "-1.5".toList = some literal ∧ leadingDouble "\t-1.5e+é".toList = literal.toBinary .double := by
  obtain ⟨-, counts, -, -, reads, -⟩ := leadingLength_takes_longest
  have longest : LongestStart NumberText "-1.5e+é".toList "-1.5".toList :=
    longestStart_takeBytes (by decide +kernel)
  exact ⟨longest, (counts _ _ longest).1.trans (by decide +kernel), reads "\t-1.5e+é".toList _ longest⟩

end ConfigStore
