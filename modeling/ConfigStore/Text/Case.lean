/-! Names are compared without regard to ASCII case, and letters beyond ASCII stay as they are. The comparison
goes byte by byte, and says whether the folded forms are equal. -/

namespace ConfigStore

/-- A name with its ASCII capitals made small. -/
def foldName (name : String) : String :=
  String.ofList (name.toList.map Char.toLower)

/-- A byte of a text with an ASCII capital made small. No byte of a character beyond ASCII is changed. -/
def foldByte (byte : UInt8) : UInt8 :=
  if 65 ≤ byte ∧ byte ≤ 90 then byte + 32 else byte

/-- The byte at an index of a text. -/
def byteAt (text : String) (index : Nat) : UInt8 :=
  if within : ⟨index⟩ < text.rawEndPos then text.getUTF8Byte ⟨index⟩ within else 0

/-- Whether so many bytes at the start of two texts differ in ASCII case at most. The last ones come first, since
names often differ there. -/
def sameBytes (left right : String) : Nat → Bool
  | 0 => true
  | count + 1 =>
    foldByte (byteAt left count) == foldByte (byteAt right count) && sameBytes left right count

/-- Two names are the same when they differ in ASCII case at most. -/
def sameName (left right : String) : Bool :=
  left.utf8ByteSize == right.utf8ByteSize && sameBytes left right left.utf8ByteSize

/-- Bytes of characters beyond ASCII are never capitals. -/
theorem foldByte_of_high {value : Nat} (high : 128 ≤ value) (low : value < 256) :
    foldByte (UInt8.ofNat value) = UInt8.ofNat value := by
  -- The last capital comes before the first such byte.
  have size : (UInt8.ofNat value).toNat = value := by simp; omega
  simp only [foldByte, UInt8.le_iff_toNat_le, size]
  rw [if_neg]
  simp
  omega

/-- Folding a character folds its bytes. -/
theorem utf8EncodeChar_toLower (char : Char) :
    String.utf8EncodeChar char.toLower = (String.utf8EncodeChar char).map foldByte := by
  by_cases ascii : char.val.toNat < 128
  -- The characters of ASCII are few enough to try them all.
  · have all : ∀ value < 128, String.utf8EncodeChar (Char.ofNat value).toLower =
        (String.utf8EncodeChar (Char.ofNat value)).map foldByte := by decide +kernel
    have here := all char.toNat ascii
    rwa [Char.ofNat_toNat] at here
  -- No other character is a capital, nor is any of its bytes.
  · have same : char.toLower = char := by
      unfold Char.toLower
      rw [dif_neg]
      intro capital
      have last : char.val.toNat ≤ 90 := UInt32.le_iff_toNat_le.1 capital.2
      omega
    rw [same]
    have bound := char.val.toNat_lt
    unfold String.utf8EncodeChar
    simp only
    split
    · omega
    · split
      · simp only [List.map_cons, List.map_nil]
        rw [foldByte_of_high (by omega) (by omega), foldByte_of_high (by omega) (by omega)]
      · split
        · simp only [List.map_cons, List.map_nil]
          rw [foldByte_of_high (by omega) (by omega), foldByte_of_high (by omega) (by omega),
            foldByte_of_high (by omega) (by omega)]
        · simp only [List.map_cons, List.map_nil]
          rw [foldByte_of_high (by omega) (by omega), foldByte_of_high (by omega) (by omega),
            foldByte_of_high (by omega) (by omega), foldByte_of_high (by omega) (by omega)]

/-- Folding a name folds its bytes. -/
theorem foldName_bytes (name : String) :
    (foldName name).toByteArray.data.toList = name.toByteArray.data.toList.map foldByte := by
  -- The bytes of a text are those of its characters.
  have whole : ∀ chars : List Char,
      (chars.map Char.toLower).flatMap String.utf8EncodeChar =
        (chars.flatMap String.utf8EncodeChar).map foldByte := by
    intro chars
    induction chars with
    | nil => rfl
    | cons char rest ih => simp [utf8EncodeChar_toLower, ih]
  rw [foldName, String.toByteArray_ofList, ← String.utf8Encode_toList (b := name)]
  simp [List.utf8Encode, whole]

/-- The size of a text is the count of its bytes. -/
theorem length_bytes (text : String) : text.toByteArray.data.toList.length = text.utf8ByteSize := by
  rw [← String.size_toByteArray, Array.length_toList]
  rfl

/-- Bytes within a text are those of its encoding. -/
theorem byteAt_eq {text : String} {index : Nat} (within : index < text.toByteArray.data.toList.length) :
    byteAt text index = text.toByteArray.data.toList[index] := by
  -- The index is before the end, so there is a byte to get.
  have inside : (⟨index⟩ : String.Pos.Raw) < text.rawEndPos := by
    simpa [String.Pos.Raw.lt_iff] using length_bytes text ▸ within
  rw [byteAt, dif_pos inside]
  rfl

/-- Bytes are compared one by one. -/
theorem sameBytes_iff {left right : String} {count : Nat} :
    sameBytes left right count = true ↔
      ∀ index < count, foldByte (byteAt left index) = foldByte (byteAt right index) := by
  induction count with
  | zero => simp [sameBytes]
  | succ count ih =>
    simp only [sameBytes, Bool.and_eq_true, beq_iff_eq, ih]
    constructor
    · intro ⟨last, others⟩ index within
      by_cases final : index = count
      · rw [final, last]
      · exact others index (by omega)
    · intro all
      exact ⟨all count (by omega), fun index within => all index (by omega)⟩

/-- Sameness of names is equality of their folded forms. -/
theorem sameName_iff {left right : String} :
    sameName left right = true ↔ foldName left = foldName right := by
  -- Texts are equal when their bytes are, and folded forms have folded bytes.
  rw [← String.toByteArray_inj, ByteArray.ext_iff, ← Array.toList_inj, foldName_bytes, foldName_bytes]
  simp only [sameName, Bool.and_eq_true, beq_iff_eq, sameBytes_iff]
  constructor
  · intro ⟨sizes, bytes⟩
    apply List.ext_getElem
    · simp only [List.length_map, length_bytes, sizes]
    · intro index first second
      simp only [List.length_map] at first second
      simpa only [List.getElem_map, byteAt_eq first, byteAt_eq second] using bytes index (length_bytes left ▸ first)
  · intro folded
    have sizes : left.utf8ByteSize = right.utf8ByteSize := by
      simpa only [List.length_map, length_bytes] using congrArg List.length folded
    refine ⟨sizes, fun index within => ?_⟩
    have first : index < left.toByteArray.data.toList.length := length_bytes left ▸ within
    have second : index < right.toByteArray.data.toList.length :=
      length_bytes right ▸ sizes ▸ within
    rw [byteAt_eq first, byteAt_eq second]
    have here := congrArg (·[index]?) folded
    simpa only [List.getElem?_map, List.getElem?_eq_getElem first, List.getElem?_eq_getElem second,
      Option.map_some, Option.some.injEq] using here

/-- Every name is the same as itself. -/
@[simp] theorem sameName_refl (name : String) : sameName name name = true := by
  simp [sameName_iff]

/-- Sameness of names has no direction. -/
theorem sameName_comm (left right : String) : sameName left right = sameName right left := by
  -- Equality of the folded forms is symmetric.
  rw [Bool.eq_iff_iff, sameName_iff, sameName_iff]
  exact eq_comm

/-- Names that are the same as a third are the same as each other. -/
theorem sameName_trans {first second third : String} (left : sameName first second = true)
    (right : sameName second third = true) : sameName first third = true := by
  -- Folded forms compose as equalities.
  rw [sameName_iff] at *
  exact left.trans right

/-- Names that are the same are interchangeable on the left of a comparison. -/
theorem sameName_congr {left right : String} (same : sameName left right = true) (other : String) :
    sameName left other = sameName right other := by
  -- The comparison only looks at the folded form.
  rw [Bool.eq_iff_iff, sameName_iff, sameName_iff, sameName_iff.1 same]

/-- Names that are the same are interchangeable on the right of a comparison. -/
theorem sameName_congr_right {left right : String} (same : sameName left right = true) (other : String) :
    sameName other left = sameName other right := by
  -- The comparison has no direction.
  rw [sameName_comm, sameName_congr same, sameName_comm]

end ConfigStore
