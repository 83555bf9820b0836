import Mathlib.Data.List.TakeWhile
import ConfigStore.Keyfile.Source
import ConfigStore.Proofs.Text.Separate

/-! Reading a source in chunks gives the lines of its bytes, wherever the chunks begin and end. -/

namespace ConfigStore

/-- A line that is closed by a newline stands before the other lines. -/
theorem byteLines_append_newline {line : List UInt8} (absent : newlineByte ∉ line) (rest : List UInt8) :
    byteLines (line ++ newlineByte :: rest) = line :: byteLines rest := by
  have shown : separate newlineByte (line ++ newlineByte :: rest) = [line] ++ separate newlineByte rest := by
    rw [separate_append_mark, separate_of_not_mem absent]
  exact byteLines_of_front shown

/-- A line that is not closed counts if it holds anything. -/
theorem byteLines_of_not_mem {line : List UInt8} (absent : newlineByte ∉ line) :
    byteLines line = if line = [] then [] else [line] := by
  -- The only piece is the line itself.
  simp only [byteLines, separate_of_not_mem absent]
  by_cases empty : line = []
  · simp [empty]
  · simp [empty]

namespace Source

/-- All of a chunk without a newline is in front of its first newline. -/
theorem takeWhile_of_not_mem {chunk : List UInt8} (absent : newlineByte ∉ chunk) :
    chunk.takeWhile (· != newlineByte) = chunk ∧ chunk.dropWhile (· != newlineByte) = [] := by
  have all : ∀ byte ∈ chunk, (byte != newlineByte) = true := fun byte member =>
    bne_iff_ne.2 fun same : byte = newlineByte => absent (same ▸ member)
  exact ⟨List.takeWhile_eq_self_iff.2 all, List.dropWhile_eq_nil_iff.2 all⟩

/-- What a bounded read takes from the bytes of its chunks, by the way it ends. -/
theorem readUntil_spec {bound : Nat} (positive : 0 < bound) (chunks : List (List UInt8)) :
    match readUntil bound chunks with
    | (line, .newline, rest) =>
      chunks.flatten = line ++ newlineByte :: rest.flatten ∧ newlineByte ∉ line ∧ line.length < bound
    | (line, .bound, rest) => chunks.flatten = line ++ rest.flatten ∧ newlineByte ∉ line ∧ line.length = bound
    | (line, .exhausted, _) => chunks.flatten = line ∧ newlineByte ∉ line ∧ line.length < bound := by
  -- Of each chunk, the part in front of its first newline is taken, as far as the bound allows.
  induction chunks generalizing bound with
  | nil => simpa [readUntil] using positive
  | cons chunk rest ih =>
    rw [readUntil]
    by_cases present : newlineByte ∈ chunk
    · obtain ⟨front, back, rfl, absent⟩ := List.eq_append_cons_of_mem present
      simp only [takeWhile_first absent, dropWhile_first absent]
      by_cases far : bound ≤ front.length
      · rw [if_pos far]
        refine ⟨?_, fun member => absent (List.mem_of_mem_take member), by simp [far]⟩
        rw [List.flatten_cons, List.flatten_cons, ← List.append_assoc, ← List.take_append_of_le_length far,
          List.take_append_drop]
      · rw [if_neg far]
        exact ⟨by simp, absent, by omega⟩
    · obtain ⟨whole, nothing⟩ := takeWhile_of_not_mem present
      simp only [whole, nothing]
      by_cases far : bound ≤ chunk.length
      · rw [if_pos far]
        refine ⟨?_, fun member => present (List.mem_of_mem_take member), by simp [far]⟩
        rw [List.flatten_cons, List.flatten_cons, ← List.append_assoc, List.take_append_drop]
      · rw [if_neg far]
        have more := @ih (bound - chunk.length) (by omega)
        revert more
        rcases readUntil (bound - chunk.length) rest with ⟨line, _ | _ | _, behind⟩ <;> rintro ⟨whole, absent, size⟩
        · refine ⟨by simp [whole], by simp [present, absent], ?_⟩
          simp only [List.length_append] at size ⊢
          omega
        · refine ⟨by simp [whole], by simp [present, absent], ?_⟩
          simp only [List.length_append] at size ⊢
          omega
        · refine ⟨by simp [whole], by simp [present, absent], ?_⟩
          simp only [List.length_append] at size ⊢
          omega

/-- What is skipped goes up to the next newline, or up to the end. -/
theorem skipLine_spec (chunks : List (List UInt8)) :
    match skipLine chunks with
    | (count, .exhausted, _) => newlineByte ∉ chunks.flatten ∧ count = chunks.flatten.length
    | (count, _, rest) => ∃ skipped, chunks.flatten = skipped ++ newlineByte :: rest.flatten ∧
        newlineByte ∉ skipped ∧ count = skipped.length := by
  -- Either the newline is in the first chunk, or all of it is skipped and the rest decides.
  induction chunks with
  | nil => simp [skipLine]
  | cons chunk rest ih =>
    rw [skipLine]
    by_cases present : newlineByte ∈ chunk
    · obtain ⟨front, back, rfl, absent⟩ := List.eq_append_cons_of_mem present
      simp only [takeWhile_first absent, dropWhile_first absent]
      exact ⟨front, by simp, absent, rfl⟩
    · obtain ⟨whole, nothing⟩ := takeWhile_of_not_mem present
      simp only [whole, nothing]
      revert ih
      rcases skipLine rest with ⟨count, _ | _ | _, behind⟩
      · rintro ⟨skipped, whole, absent, rfl⟩
        exact ⟨chunk ++ skipped, by simp [whole], by simp [present, absent], by simp⟩
      · rintro ⟨skipped, whole, absent, rfl⟩
        exact ⟨chunk ++ skipped, by simp [whole], by simp [present, absent], by simp⟩
      · rintro ⟨absent, rfl⟩
        exact ⟨by simp [present, absent], by simp⟩

/-- The next line is the first one of the bytes to come, and a fault counts before an open line. -/
theorem next_spec (limit : Nat) (fault : Option FileFault) (chunks : List (List UInt8)) :
    match next limit fault chunks with
    | .finished => fault = none ∧ chunks.flatten = []
    | .failed reason => fault = some reason ∧ newlineByte ∉ chunks.flatten
    | .line kept length rest => ∃ line, newlineByte ∉ line ∧ kept = line.take limit ∧ length = line.length ∧
        (chunks.flatten = line ++ newlineByte :: rest.flatten ∨
          (fault = none ∧ line ≠ [] ∧ chunks.flatten = line ∧ rest = [])) := by
  have last : ∀ line : List UInt8, newlineByte ∉ line → chunks.flatten = line →
      match lastLine fault (line.take limit) line.length with
      | .finished => fault = none ∧ chunks.flatten = []
      | .failed reason => fault = some reason ∧ newlineByte ∉ chunks.flatten
      | .line kept length rest => ∃ line, newlineByte ∉ line ∧ kept = line.take limit ∧ length = line.length ∧
          (chunks.flatten = line ++ newlineByte :: rest.flatten ∨
            (fault = none ∧ line ≠ [] ∧ chunks.flatten = line ∧ rest = [])) := by
    intro line absent whole
    cases fault with
    | some reason => exact ⟨rfl, whole ▸ absent⟩
    | none =>
      by_cases empty : line.length = 0
      · simp only [lastLine, if_pos empty]
        exact ⟨trivial, whole.trans (List.eq_nil_of_length_eq_zero empty)⟩
      · simp only [lastLine, if_neg empty]
        exact ⟨line, absent, rfl, rfl, .inr ⟨trivial, fun bare => empty (by simp [bare]), whole, trivial⟩⟩
  have read := readUntil_spec (Nat.succ_pos limit) chunks
  unfold next
  revert read
  rcases readUntil (limit + 1) chunks with ⟨line, _ | _ | _, rest⟩ <;> rintro ⟨whole, absent, size⟩
  · exact ⟨line, absent, (List.take_of_length_le (by omega)).symm, rfl, .inl whole⟩
  · have skip := skipLine_spec rest
    -- The line is what was read and what is skipped of it.
    have start : ∀ skipped : List UInt8, (line ++ skipped).take limit = line.take limit := fun skipped =>
      List.take_append_of_le_length (by omega)
    simp only
    revert skip
    rcases skipLine rest with ⟨count, _ | _ | _, behind⟩
    · rintro ⟨skipped, more, absentMore, rfl⟩
      exact ⟨line ++ skipped, by simp [absent, absentMore], (start skipped).symm, by simp,
        .inl (by rw [whole, more, List.append_assoc])⟩
    · rintro ⟨skipped, more, absentMore, rfl⟩
      exact ⟨line ++ skipped, by simp [absent, absentMore], (start skipped).symm, by simp,
        .inl (by rw [whole, more, List.append_assoc])⟩
    · rintro ⟨absentMore, rfl⟩
      have final := last (line ++ rest.flatten) (by simp [absent, absentMore]) whole
      rwa [start, List.length_append] at final
  · have final := last line absent whole
    rwa [List.take_of_length_le (by omega)] at final

end Source

/-- A source without a fault is loaded as the lines of its bytes. -/
theorem Loader.takeSource_eq (loader : Loader) (limit number : Nat) (chunks : List (List UInt8)) :
    loader.takeSource limit number none chunks =
      (.ok (loader.takeLines limit number (byteLines chunks.flatten)).1,
        (loader.takeLines limit number (byteLines chunks.flatten)).2) := by
  -- Every line leaves fewer bytes behind it.
  induction size : Source.bytes chunks using Nat.strongRecOn generalizing loader number chunks with
  | ind size ih =>
    have read := Source.next_spec limit none chunks
    rw [takeSource]
    split
    · next found =>
      rw [found] at read
      rw [read.2]
      rfl
    · next reason found =>
      rw [found] at read
      cases read.1
    · next kept length rest found =>
      rw [found] at read
      obtain ⟨line, absent, rfl, rfl, closed | ⟨-, filled, whole, rfl⟩⟩ := read
      · have again := fun loader number => ih _ (size ▸ Source.next_bytes_lt found) loader number rest rfl
        simp only [again, closed, byteLines_append_newline absent]
        rfl
      · have again := fun loader number => ih _ (size ▸ Source.next_bytes_lt found) loader number [] rfl
        simp only [again, whole, byteLines_of_not_mem absent, if_neg filled]
        rfl

/-- Through a buffer, a source without a fault is loaded as its bytes are, however they are cut into chunks. -/
theorem Keyfile.loadBuffered_eq_loadBytes (limit : Nat) (chunks : List (List UInt8)) :
    Keyfile.loadBuffered limit ⟨chunks, none⟩ =
      (.ok (Keyfile.loadBytes limit chunks.flatten).1, (Keyfile.loadBytes limit chunks.flatten).2) := by
  simp only [loadBuffered, Loader.takeSource_eq]
  rfl

/-- So it is with any limit that a buffer may have. -/
theorem Keyfile.load_eq_loadBytes {limit : Nat} (held : limit ≤ greatestCapacity) (chunks : List (List UInt8)) :
    Keyfile.load limit ⟨chunks, none⟩ =
      (some (.ok (Keyfile.loadBytes limit chunks.flatten).1), (Keyfile.loadBytes limit chunks.flatten).2) := by
  rw [load_of_le held, loadBuffered_eq_loadBytes]

/-- The chunks of bytes are the bytes. -/
theorem Source.flatten_cut {size : Nat} (positive : 0 < size) (bytes : List UInt8) :
    (cut size positive bytes).flatten = bytes := by
  -- Each chunk leaves fewer bytes behind it.
  induction long : bytes.length using Nat.strongRecOn generalizing bytes with
  | ind count ih =>
    unfold cut
    split
    · rfl
    · next byte rest =>
      have fewer : ((byte :: rest).drop size).length < count := by
        rw [List.length_drop, long]
        simp only [List.length_cons] at long
        omega
      rw [List.flatten_cons, ih _ fewer _ rfl, List.take_append_drop]

/-- Bytes that are delivered in chunks of one size are loaded as they are. -/
theorem Keyfile.loadBuffered_ofBytes (limit size : Nat) (bytes : List UInt8) :
    Keyfile.loadBuffered limit (Source.ofBytes size bytes none) =
      (.ok (Keyfile.loadBytes limit bytes).1, (Keyfile.loadBytes limit bytes).2) := by
  -- Chunks put together are the bytes again, and a size of nothing leaves them whole.
  rw [Source.ofBytes]
  split
  · next positive => rw [loadBuffered_eq_loadBytes, Source.flatten_cut]
  · rw [loadBuffered_eq_loadBytes, List.flatten_singleton]

end ConfigStore
