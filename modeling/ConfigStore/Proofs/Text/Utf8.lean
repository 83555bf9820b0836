import Mathlib.Algebra.Group.Nat.Defs
import ConfigStore.Proofs.Text.Separate
import ConfigStore.Text.Utf8

/-! Lenient reading gives back every text that was written, and a text that was cut inside a character ends in
one replacement. -/

namespace ConfigStore.Utf8

/-- The bytes of characters. -/
def encodeChars (chars : List Char) : List UInt8 :=
  chars.flatMap String.utf8EncodeChar

@[simp] theorem encodeChars_nil : encodeChars [] = [] := rfl

@[simp] theorem encodeChars_cons (char : Char) (rest : List Char) :
    encodeChars (char :: rest) = String.utf8EncodeChar char ++ encodeChars rest := rfl

@[simp] theorem encodeChars_append (front back : List Char) :
    encodeChars (front ++ back) = encodeChars front ++ encodeChars back :=
  List.flatMap_append

/-- They are the bytes of the text that has the characters. -/
theorem encode_ofList (chars : List Char) : encode (String.ofList chars) = encodeChars chars := by
  rw [encode, String.toList_ofList, encodeChars]

/-- The size of a text is the count of its bytes. -/
theorem length_encodeChars (text : String) : (encodeChars text.toList).length = text.utf8ByteSize := by
  rw [← String.size_toByteArray, ← String.utf8Encode_toList (b := text), List.utf8Encode]
  simp [encodeChars, ByteArray.size]

/-- The characters that bytes complete after an unfinished one, and what they leave unfinished. -/
def run (pending : Option Pending) : List UInt8 → List Char × Option Pending
  | [] => ([], pending)
  | byte :: rest =>
    let (chars, next) := step pending byte
    let (more, last) := run next rest
    (chars ++ more, last)

/-- Reading goes on where a run ends. -/
theorem decodeFrom_append (pending : Option Pending) (front back : List UInt8) :
    decodeFrom pending (front ++ back) = (run pending front).1 ++ decodeFrom (run pending front).2 back := by
  -- Each byte of the front is one step of both.
  induction front generalizing pending with
  | nil => simp [run]
  | cons byte rest ih => simp [run, decodeFrom, ih]

/-- The numbers that a byte is made of come back from it. -/
theorem toNat_ofNat {value : Nat} (small : value < 256) : (UInt8.ofNat value).toNat = value := by
  simp only [UInt8.toNat_ofNat']
  omega

/-- A byte of ASCII is a character. -/
theorem start_ascii {value : Nat} (small : value < 0x80) :
    start (UInt8.ofNat value) = ([Char.ofNat value], none) := by
  simp only [start, toNat_ofNat (show value < 256 by omega), if_pos small]

/-- A byte that opens a character of two bytes. -/
theorem start_two {value : Nat} (low : 0xC2 ≤ value) (high : value < 0xE0) :
    start (UInt8.ofNat value) = ([], some ⟨value - 0xC0, 0, 0x80, 0xBF⟩) := by
  simp only [start, toNat_ofNat (show value < 256 by omega)]
  rw [if_neg (by omega), if_neg (by omega), if_pos high]

/-- A byte that opens a character of three bytes. -/
theorem start_three {value : Nat} (low : 0xE0 ≤ value) (high : value < 0xF0) :
    start (UInt8.ofNat value) = ([], some ⟨value - 0xE0, 1, if value = 0xE0 then 0xA0 else 0x80,
      if value = 0xED then 0x9F else 0xBF⟩) := by
  simp only [start, toNat_ofNat (show value < 256 by omega)]
  rw [if_neg (by omega), if_neg (by omega), if_neg (by omega), if_pos high]

/-- A byte that opens a character of four bytes. -/
theorem start_four {value : Nat} (low : 0xF0 ≤ value) (high : value < 0xF5) :
    start (UInt8.ofNat value) = ([], some ⟨value - 0xF0, 2, if value = 0xF0 then 0x90 else 0x80,
      if value = 0xF4 then 0x8F else 0xBF⟩) := by
  simp only [start, toNat_ofNat (show value < 256 by omega)]
  rw [if_neg (by omega), if_neg (by omega), if_neg (by omega), if_neg (by omega), if_pos high]

/-- A byte that continues a character to which more bytes belong. -/
theorem step_more {bits owed low high value : Nat} (small : value < 256) (above : low ≤ value)
    (below : value ≤ high) :
    step (some ⟨bits, owed + 1, low, high⟩) (UInt8.ofNat value) =
      ([], some ⟨bits * 64 + (value - 0x80), owed, 0x80, 0xBF⟩) := by
  simp [step, toNat_ofNat small, above, below]

/-- The last byte of a character. -/
theorem step_last {bits low high value : Nat} (small : value < 256) (above : low ≤ value)
    (below : value ≤ high) :
    step (some ⟨bits, 0, low, high⟩) (UInt8.ofNat value) = ([Char.ofNat (bits * 64 + (value - 0x80))], none) := by
  simp [step, toNat_ofNat small, above, below]

/-- Bytes complete a character, and none before the last of them completes anything. -/
def Completes (pending : Option Pending) (bytes : List UInt8) (char : Char) : Prop :=
  run pending bytes = ([char], none) ∧
    ∀ count, 0 < count → count < bytes.length → ∃ next, run pending (bytes.take count) = ([], some next)

/-- The last byte of a character completes it. -/
theorem completes_last {pending : Option Pending} {byte : UInt8} {char : Char}
    (taken : step pending byte = ([char], none)) : Completes pending [byte] char := by
  refine ⟨by simp [run, taken], fun count positive below => ?_⟩
  simp only [List.length_singleton] at below
  omega

/-- A byte before the last one leaves the rest to complete the character. -/
theorem completes_more {pending : Option Pending} {next : Pending} {byte : UInt8} {rest : List UInt8} {char : Char}
    (taken : step pending byte = ([], some next)) (completes : Completes (some next) rest char) :
    Completes pending (byte :: rest) char := by
  refine ⟨by simp [run, taken, completes.1], fun count positive below => ?_⟩
  -- Either only this byte is read, or some of the rest follows.
  match count, positive with
  | 1, _ => exact ⟨next, by simp [run, taken]⟩
  | count + 2, _ =>
    obtain ⟨last, reached⟩ := completes.2 (count + 1) (by omega) (by simp only [List.length_cons] at below; omega)
    exact ⟨last, by simp [run, taken, reached]⟩

/-- The value of a character is below the surrogates or above them. -/
theorem toNat_valid (char : Char) :
    char.toNat < 0xD800 ∨ (0xDFFF < char.toNat ∧ char.toNat < 0x110000) :=
  char.valid

/-- The bytes of a character complete it. -/
theorem completes_encodeChar (char : Char) : Completes none (String.utf8EncodeChar char) char := by
  -- The value tells the count of bytes, and each byte is in the range that the one before it asks for.
  have valid := toNat_valid char
  have same : Char.ofNat char.toNat = char := Char.ofNat_toNat char
  have value : char.val.toNat = char.toNat := rfl
  generalize char.toNat = code at *
  unfold String.utf8EncodeChar
  simp only [value]
  split
  · exact completes_last (same ▸ start_ascii (by omega))
  · split
    · refine completes_more (start_two (by omega) (by omega)) (completes_last ?_)
      rw [step_last (by omega) (by omega) (by omega), show
        (code / 64 % 32 + 192 - 192) * 64 + (code % 64 + 128 - 128) = code by omega, same]
    · split
      · refine completes_more (start_three (by omega) (by omega)) (completes_more
          (step_more (by omega) (by split <;> omega) (by split <;> omega)) (completes_last ?_))
        rw [step_last (by omega) (by omega) (by omega), show
          ((code / 4096 % 16 + 224 - 224) * 64 + (code / 64 % 64 + 128 - 128)) * 64 + (code % 64 + 128 - 128) =
            code by omega, same]
      · refine completes_more (start_four (by omega) (by omega)) (completes_more
          (step_more (by omega) (by split <;> omega) (by split <;> omega)) (completes_more
          (step_more (by omega) (by omega) (by omega)) (completes_last ?_)))
        rw [step_last (by omega) (by omega) (by omega), show
          (((code / 262144 % 8 + 240 - 240) * 64 + (code / 4096 % 64 + 128 - 128)) * 64 +
            (code / 64 % 64 + 128 - 128)) * 64 + (code % 64 + 128 - 128) = code by omega, same]

/-- Reading a character's bytes gives the character and goes on behind it. -/
theorem decodeFrom_encodeChar (char : Char) (rest : List UInt8) :
    decodeFrom none (String.utf8EncodeChar char ++ rest) = char :: decodeFrom none rest := by
  rw [decodeFrom_append, (completes_encodeChar char).1]
  rfl

/-- What is read of a line that is cut to so many bytes: the whole characters, and a replacement for a character
that is cut in two. -/
def cutChars (limit : Nat) : List Char → List Char
  | [] => []
  | char :: rest =>
    if char.utf8Size ≤ limit then char :: cutChars (limit - char.utf8Size) rest
    else if limit = 0 then [] else [replacement]

/-- Cutting the bytes of a text cuts its characters. -/
theorem decode_take_encodeChars (limit : Nat) (chars : List Char) :
    decode ((encodeChars chars).take limit) = cutChars limit chars := by
  -- Each character is before the cut as a whole, or the cut is in it or in front of it.
  induction chars generalizing limit with
  | nil => simp [cutChars, decode, decodeFrom]
  | cons char rest ih =>
    rw [encodeChars_cons, List.take_append, String.length_utf8EncodeChar]
    unfold cutChars
    split
    · next fits =>
      rw [List.take_of_length_le (by simpa using fits), decode, decodeFrom_encodeChar]
      exact congrArg _ (ih _)
    · next tooMany =>
      rw [Nat.sub_eq_zero_of_le (by omega), List.take_zero, List.append_nil]
      split
      · next untaken => simp [untaken, decode, decodeFrom]
      · next taken =>
        obtain ⟨pending, reached⟩ :=
          (completes_encodeChar char).2 limit (by omega) (by rw [String.length_utf8EncodeChar]; omega)
        have read := decodeFrom_append none ((String.utf8EncodeChar char).take limit) []
        rw [List.append_nil, reached] at read
        exact read

/-- A text that ends in a replacement has the bytes of one at least. -/
theorem three_le_length {chars : List Char} (last : chars.getLast? = some replacement) :
    3 ≤ (encodeChars chars).length := by
  obtain ⟨front, rfl⟩ := List.getLast?_eq_some_iff.1 last
  have size : (String.utf8EncodeChar replacement).length = 3 := by decide
  simp [size]

/-- A text that fits is not cut. -/
theorem cutChars_of_fits {limit : Nat} {chars : List Char} (fits : (encodeChars chars).length ≤ limit) :
    cutChars limit chars = chars := by
  -- Each character fits, and the others fit into what is left.
  induction chars generalizing limit with
  | nil => rfl
  | cons char rest ih =>
    simp only [encodeChars_cons, List.length_append, String.length_utf8EncodeChar] at fits
    rw [cutChars, if_pos (by omega), ih (by omega)]

/-- A cut leaves a text as it was when the text fits, and when it ends in a replacement that the cut goes
through. -/
theorem cutChars_eq_self_iff {limit : Nat} {chars : List Char} :
    cutChars limit chars = chars ↔ (encodeChars chars).length ≤ limit ∨
      (chars.getLast? = some replacement ∧ (encodeChars chars).length < limit + 3) := by
  -- The last character decides, and those in front of it only use up the limit.
  induction chars generalizing limit with
  | nil => simp [cutChars]
  | cons char rest ih =>
    have size : replacement.utf8Size = 3 := by decide
    simp only [encodeChars_cons, List.length_append, String.length_utf8EncodeChar]
    rw [cutChars]
    split
    · next fits =>
      rw [List.cons.injEq, ih]
      cases rest with
      | nil => simp [fits]
      | cons next others =>
        rw [List.getLast?_cons_cons]
        constructor
        · rintro ⟨-, short | ⟨last, short⟩⟩
          · exact .inl (by omega)
          · exact .inr ⟨last, by omega⟩
        · rintro (short | ⟨last, short⟩)
          · exact ⟨rfl, .inl (by omega)⟩
          · exact ⟨rfl, .inr ⟨last, by omega⟩⟩
    · next tooMany =>
      cases rest with
      | nil =>
        by_cases nothing : limit = 0
        · simp only [if_pos nothing, List.getLast?_singleton, Option.some.injEq, encodeChars_nil, List.length_nil]
          constructor
          · intro impossible
            cases impossible
          · rintro (short | ⟨rfl, short⟩) <;> omega
        · simp only [if_neg nothing, List.getLast?_singleton, Option.some.injEq, encodeChars_nil, List.length_nil,
            List.cons.injEq, and_true]
          constructor
          · rintro rfl
            exact .inr ⟨rfl, by omega⟩
          · rintro (short | ⟨rfl, short⟩)
            · omega
            · rfl
      | cons next others =>
        rw [List.getLast?_cons_cons]
        constructor
        · split <;> simp
        · rintro (short | ⟨last, short⟩)
          · omega
          · have more := three_le_length last
            omega

/-- A newline is one byte, which is in no other character. -/
theorem newlineByte_mem_encodeChar {char : Char} :
    newlineByte ∈ String.utf8EncodeChar char ↔ char = '\n' := by
  have valid := toNat_valid char
  have value : char.val.toNat = char.toNat := rfl
  have bytes : ∀ value, value < 256 → (newlineByte = UInt8.ofNat value ↔ value = 10) := by
    intro value small
    rw [← UInt8.toNat_inj, toNat_ofNat small]
    exact eq_comm
  have newline : char = '\n' ↔ char.toNat = 10 := by
    rw [← Char.toNat_inj]
    rfl
  rw [newline]
  generalize char.toNat = code at *
  unfold String.utf8EncodeChar
  simp only [value]
  -- The bytes of the other characters are at least 128.
  split
  · simp only [List.mem_singleton, bytes code (by omega)]
  · split
    · simp only [List.mem_cons, List.not_mem_nil, or_false, bytes _ (show code / 64 % 32 + 192 < 256 by omega),
        bytes _ (show code % 64 + 128 < 256 by omega)]
      omega
    · split
      · simp only [List.mem_cons, List.not_mem_nil, or_false, bytes _ (show code / 4096 % 16 + 224 < 256 by omega),
          bytes _ (show code / 64 % 64 + 128 < 256 by omega), bytes _ (show code % 64 + 128 < 256 by omega)]
        omega
      · simp only [List.mem_cons, List.not_mem_nil, or_false, bytes _ (show code / 262144 % 8 + 240 < 256 by omega),
          bytes _ (show code / 4096 % 64 + 128 < 256 by omega), bytes _ (show code / 64 % 64 + 128 < 256 by omega),
          bytes _ (show code % 64 + 128 < 256 by omega)]
        omega

/-- The lines of a text in bytes are the bytes of its lines. -/
theorem separate_encodeChars (chars : List Char) :
    separate newlineByte (encodeChars chars) = (separate '\n' chars).map encodeChars := by
  -- Among the bytes of a character, a newline is only that of a newline.
  induction chars with
  | nil => rfl
  | cons char rest ih =>
    obtain ⟨piece, pieces, behind⟩ := List.exists_cons_of_ne_nil (separate_ne_nil '\n' rest)
    by_cases newline : char = '\n'
    · subst newline
      rw [separate_cons_mark, List.map_cons, ← ih]
      exact separate_cons_mark newlineByte (encodeChars rest)
    · rw [separate_cons_other newline behind]
      rw [behind] at ih
      exact separate_append_other (mt newlineByte_mem_encodeChar.1 newline) ih

/-- Whatever completes an unfinished character, it is beyond ASCII. -/
def Pending.BeyondAscii (pending : Pending) : Prop :=
  0x80 ≤ pending.low ∧ 0x80 ≤ (pending.bits * 64 + (pending.low - 0x80)) * 64 ^ pending.owed

/-- No other number stands for a newline. -/
theorem ofNat_eq_newline {value : Nat} (read : Char.ofNat value = '\n') : value = 10 := by
  -- Numbers that stand for no character are read as the first one.
  unfold Char.ofNat at read
  by_cases valid : value.isValidChar
  · rw [dif_pos valid] at read
    exact congrArg Char.toNat read
  · rw [dif_neg valid] at read
    exact absurd read (by decide)

/-- A byte between characters opens one beyond ASCII or is one, and only a newline is one. -/
theorem start_beyondAscii (byte : UInt8) :
    ('\n' ∈ (start byte).1 → byte = newlineByte) ∧ ∀ pending ∈ (start byte).2, pending.BeyondAscii := by
  -- Each range of first bytes has a least second byte that rules out longer spellings.
  have broken : '\n' ≠ replacement := by decide
  unfold start
  simp only
  split
  · refine ⟨fun read => ?_, by simp⟩
    have code := ofNat_eq_newline (List.mem_singleton.1 read).symm
    exact UInt8.toNat_inj.1 code
  · split
    · simp [broken]
    · split
      · next low _ =>
        simp only [List.not_mem_nil, false_imp_iff, Option.mem_def, Option.some.injEq, forall_eq', true_and]
        exact ⟨by simp, by simp; omega⟩
      · split
        · simp only [List.not_mem_nil, false_imp_iff, Option.mem_def, Option.some.injEq, forall_eq', true_and]
          refine ⟨?_, ?_⟩ <;> simp only <;> split <;> omega
        · split
          · simp only [List.not_mem_nil, false_imp_iff, Option.mem_def, Option.some.injEq, forall_eq', true_and]
            refine ⟨?_, ?_⟩ <;> simp only <;> split <;> omega
          · simp [broken]

/-- A byte inside a character that is beyond ASCII keeps it so, and is read as a newline only if it is one. -/
theorem step_beyondAscii {pending : Option Pending} (byte : UInt8) (beyond : ∀ one ∈ pending, one.BeyondAscii) :
    ('\n' ∈ (step pending byte).1 → byte = newlineByte) ∧
      ∀ next ∈ (step pending byte).2, next.BeyondAscii := by
  -- With each byte the number grows by six bits and as much less is owed.
  cases pending with
  | none => exact start_beyondAscii byte
  | some pending =>
    obtain ⟨low, least⟩ := beyond pending rfl
    have fresh := start_beyondAscii byte
    unfold step
    simp only
    split
    · next within =>
      split
      · next last =>
        rw [last, Nat.pow_zero, Nat.mul_one] at least
        refine ⟨fun read => ?_, by simp⟩
        have code := ofNat_eq_newline (List.mem_singleton.1 read).symm
        omega
      · next owed more =>
        simp only [List.not_mem_nil, false_imp_iff, Option.mem_def, Option.some.injEq, forall_eq', true_and]
        have grown : pending.bits * 64 + (pending.low - 0x80) ≤ pending.bits * 64 + (byte.toNat - 0x80) := by omega
        refine ⟨by simp, Nat.le_trans least ?_⟩
        rw [more, Nat.pow_succ', ← Nat.mul_assoc, Nat.sub_self, Nat.add_zero]
        exact Nat.mul_le_mul_right _ (Nat.mul_le_mul_right _ grown)
    · have broken : '\n' ≠ replacement := by decide
      refine ⟨fun read => fresh.1 ?_, fresh.2⟩
      simpa [broken] using read

/-- A newline is read only where there is one. -/
theorem newline_not_mem_decode {bytes : List UInt8} (absent : newlineByte ∉ bytes) : '\n' ∉ decode bytes := by
  -- Whatever is pending is beyond ASCII, and stays so from byte to byte.
  have general : ∀ pending : Option Pending, (∀ one ∈ pending, one.BeyondAscii) →
      '\n' ∉ decodeFrom pending bytes := by
    induction bytes with
    | nil =>
      have broken : '\n' ≠ replacement := by decide
      rintro (_ | pending) _ <;> simp [decodeFrom, broken]
    | cons byte rest ih =>
      intro pending beyond
      simp only [List.mem_cons, not_or] at absent
      obtain ⟨read, next⟩ := step_beyondAscii byte beyond
      simp only [decodeFrom, List.mem_append, not_or]
      exact ⟨fun newline => absent.1 (read newline).symm, ih absent.2 _ next⟩
  exact general none (by simp)

end ConfigStore.Utf8
