import Mathlib.Data.List.DropRight
import ConfigStore.Proofs.Keyfile.Source

/-! A source that fails is never loaded as what it delivered so far. Its fault is the result, and what was reported
before is what loading the closed lines reports. -/

namespace ConfigStore

/-- Bytes up to their last newline, with that newline, or none if there is no newline. -/
def closedPart (bytes : List UInt8) : List UInt8 :=
  bytes.rdropWhile (· != newlineByte)

/-- Nothing of an open line is closed. -/
theorem closedPart_of_not_mem {bytes : List UInt8} (absent : newlineByte ∉ bytes) : closedPart bytes = [] := by
  refine List.rdropWhile_eq_nil_iff.2 fun byte member => bne_iff_ne.2 fun same => absent ?_
  rwa [← same]

/-- A closed line stands in front of the closed part of what follows. -/
theorem closedPart_append_newline (line rest : List UInt8) :
    closedPart (line ++ newlineByte :: rest) = line ++ newlineByte :: closedPart rest := by
  -- Seen from the end, bytes are dropped up to a newline, and this one stops them if none in the rest does.
  rw [closedPart, closedPart, List.rdropWhile, List.rdropWhile, List.reverse_append, List.reverse_cons,
    List.append_assoc, List.dropWhile_append]
  split
  · next all =>
    rw [List.isEmpty_iff.1 all]
    simp
  · simp

/-- A source that fails is loaded as far as its lines are closed, and then its fault is the result. -/
theorem Loader.takeSource_failed (loader : Loader) (limit number : Nat) (fault : FileFault)
    (chunks : List (List UInt8)) :
    loader.takeSource limit number (some fault) chunks =
      (.error fault, (loader.takeLines limit number (byteLines (closedPart chunks.flatten))).2) := by
  -- Every line leaves fewer bytes behind it.
  induction size : Source.bytes chunks using Nat.strongRecOn generalizing loader number chunks with
  | ind size ih =>
    have read := Source.next_spec limit (some fault) chunks
    rw [takeSource]
    split
    · next found =>
      rw [found] at read
      cases read.1
    · next reason found =>
      rw [found] at read
      obtain ⟨same, absent⟩ := read
      -- The fault strikes within an open line, of which nothing is taken.
      rw [closedPart_of_not_mem absent, Option.some.inj same]
      rfl
    · next kept length rest found =>
      rw [found] at read
      obtain ⟨line, absent, rfl, rfl, closed | ⟨exhausted, -⟩⟩ := read
      · have again := fun loader number => ih _ (size ▸ Source.next_bytes_lt found) loader number rest rfl
        simp only [again, closed, closedPart_append_newline, byteLines_append_newline absent]
        rfl
      · cases exhausted

/-- Whatever a source delivers in whatever chunks before it fails, its fault is what comes of loading it with a limit that
a buffer may have, and never a keyfile. What is reported is exactly what is reported when the bytes up to the last newline
are loaded, and nothing of the line in which the source fails. -/
theorem loadStream_failed {limit : Nat} (held : limit ≤ Keyfile.greatestCapacity) (chunks : List (List UInt8))
    (fault : FileFault) :
    Keyfile.loadStream limit ⟨chunks, some fault⟩ =
      (some (.error (.stream fault)), (Keyfile.loadStream limit ⟨[closedPart chunks.flatten], none⟩).2) := by
  -- Both take the same closed lines.
  have lines : (Keyfile.load limit ⟨[closedPart chunks.flatten], none⟩).2 =
      (Keyfile.loadBytes limit (closedPart chunks.flatten)).2 := by
    rw [Keyfile.load_eq_loadBytes held, List.flatten_singleton]
  simp only [Keyfile.loadStream, lines]
  simp only [Keyfile.load_of_le held, Keyfile.loadBuffered, Loader.takeSource_failed]
  rfl

/-- A source that fails in a line that is too long reports the cut of the line before, and nothing of its own. -/
theorem loadStream_failed_two :
    Keyfile.loadStream 2 ⟨[Utf8.encode "abc\nde", Utf8.encode "fg"], some (.stream "read failed")⟩ =
      (some (.error (.stream (.stream "read failed"))), [.lineCut 1 3 2]) := by
  rw [loadStream_failed (by decide)]
  decide +kernel

/-- With a limit that no buffer may have, a source that fails has no result, and so no error. -/
theorem loadStream_unbuffered : ¬∀ (limit : Nat) (chunks : List (List UInt8)) (fault : FileFault),
    (Keyfile.loadStream limit ⟨chunks, some fault⟩).1 = some (.error (.stream fault)) := by
  intro fails
  have stopped : (Keyfile.loadStream (2 ^ 63) ⟨[], some .notFound⟩).1 = none := by decide
  cases stopped.symm.trans (fails (2 ^ 63) [] .notFound)

end ConfigStore
