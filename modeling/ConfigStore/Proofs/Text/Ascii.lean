import ConfigStore.Proofs.Text.Utf8

/-! Characters of one byte are the same whether a text is looked at by character or byte by byte. -/

namespace ConfigStore

open Utf8

/-- Characters of one byte only. -/
def Ascii (text : List Char) : Prop :=
  ∀ char ∈ text, char.toNat < 0x80

variable {char : Char} {front back rest text : List Char}

/-- Two such texts make one. -/
theorem Ascii.append (ascii : Ascii front) (other : Ascii back) : Ascii (front ++ back) :=
  fun char member => (List.mem_append.1 member).elim (ascii char) (other char)

/-- So does such a character in front. -/
theorem Ascii.cons (small : char.toNat < 0x80) (ascii : Ascii rest) : Ascii (char :: rest) :=
  have first : Ascii [char] := by simpa [Ascii] using small
  first.append ascii

/-- A character of one byte is that byte. -/
theorem encodeChar_ascii (small : char.toNat < 0x80) : String.utf8EncodeChar char = [UInt8.ofNat char.toNat] := by
  have value : char.val.toNat = char.toNat := rfl
  unfold String.utf8EncodeChar
  simp only [value]
  rw [if_pos (by omega)]

/-- Another character begins with a byte that is no such character. -/
theorem encodeChar_beyond (large : 0x80 ≤ char.toNat) :
    ∃ byte rest, String.utf8EncodeChar char = byte :: rest ∧ 0x80 ≤ byte.toNat := by
  have value : char.val.toNat = char.toNat := rfl
  have valid := toNat_valid char
  unfold String.utf8EncodeChar
  simp only [value]
  rw [if_neg (by omega)]
  split
  · exact ⟨_, _, rfl, by rw [toNat_ofNat] <;> omega⟩
  · split
    · exact ⟨_, _, rfl, by rw [toNat_ofNat] <;> omega⟩
    · exact ⟨_, _, rfl, by rw [toNat_ofNat] <;> omega⟩

/-- The character of a byte has its value. -/
theorem toNat_ofNat_byte (byte : UInt8) : (Char.ofNat byte.toNat).toNat = byte.toNat := by
  have valid : byte.toNat.isValidChar := .inl (by have := byte.toNat_lt; omega)
  rw [Char.ofNat, dif_pos valid]
  rfl

/-- Such a text has as many bytes as characters. -/
theorem Ascii.length_encodeChars (ascii : Ascii text) : (encodeChars text).length = text.length := by
  induction text with
  | nil => rfl
  | cons first rest ih =>
    have small := ascii first List.mem_cons_self
    have more := ih fun char member => ascii char (List.mem_cons_of_mem _ member)
    rw [encodeChars_cons, encodeChar_ascii small, List.length_append, more, List.length_singleton, List.length_cons,
      Nat.add_comm]

/-- Such a text starts another one just if it starts the bytes of the other one. -/
theorem Ascii.prefix_byteChars_iff (ascii : Ascii front) (text : List Char) :
    front <+: byteChars (encodeChars text) ↔ front <+: text := by
  induction front generalizing text with
  | nil => exact iff_of_true List.nil_prefix List.nil_prefix
  | cons first front ih =>
    have small := ascii first List.mem_cons_self
    cases text with
    | nil => rfl
    | cons char rest =>
      rw [List.cons_prefix_cons, ← ih (fun char member => ascii char (List.mem_cons_of_mem _ member)) rest]
      by_cases large : 0x80 ≤ char.toNat
      · -- Neither the character nor its first byte is one of those in front.
        obtain ⟨byte, more, bytes, high⟩ := encodeChar_beyond large
        have other : first ≠ Char.ofNat byte.toNat := by
          rintro rfl
          rw [toNat_ofNat_byte] at small
          omega
        refine iff_of_false (fun start => ?_) fun both => ?_
        · rw [encodeChars_cons, bytes] at start
          exact other (List.cons_prefix_cons.1 start).1
        · obtain ⟨rfl, -⟩ := both
          omega
      · have single := encodeChar_ascii (Nat.lt_of_not_le large)
        have same : Char.ofNat (UInt8.ofNat char.toNat).toNat = char := by
          rw [toNat_ofNat (by omega), Char.ofNat_toNat]
        have bytes : byteChars (encodeChars (char :: rest)) = char :: byteChars (encodeChars rest) := by
          rw [encodeChars_cons, single, byteChars, List.map_append, List.map_singleton, same]
          rfl
        rw [bytes, List.cons_prefix_cons]

end ConfigStore
