import ConfigStore.Keyfile.Loader

/-! Bytes arrive in chunks, of which no line needs to be held beyond its limit. Loading from a source fails
exactly when the source does. -/

namespace ConfigStore

/-- Bytes in the chunks in which they arrive, and how the source ends. -/
structure Source where
  /-- The chunks to come. -/
  chunks : List (List UInt8)
  /-- The fault behind the last chunk, if the source does not just end. -/
  fault : Option FileFault := none
  deriving DecidableEq, Repr

/-- How a bounded read came to its end. -/
inductive ReadEnd where
  /-- Behind a newline. -/
  | newline
  /-- At the bound. -/
  | bound
  /-- At the end of all chunks. -/
  | exhausted
  deriving DecidableEq, Repr

namespace Source

/-- Cuts bytes into chunks of one size, the last of which may be smaller. -/
def cut (size : Nat) (positive : 0 < size) : List UInt8 → List (List UInt8)
  | [] => []
  | byte :: rest =>
    ((byte :: rest).take size) :: cut size positive ((byte :: rest).drop size)
  termination_by bytes => bytes.length
  decreasing_by
    simp only [List.length_drop, List.length_cons]
    omega

/-- A source that delivers bytes in chunks of one size, or at once for want of a size. -/
def ofBytes (size : Nat) (bytes : List UInt8) (fault : Option FileFault) : Source :=
  ⟨if positive : 0 < size then cut size positive bytes else [bytes], fault⟩

/-- How many bytes chunks hold. -/
def bytes (chunks : List (List UInt8)) : Nat :=
  chunks.flatten.length

/-- Reads up to a newline, which is taken but not returned, or up to a bound. -/
def readUntil (bound : Nat) : List (List UInt8) → List UInt8 × ReadEnd × List (List UInt8)
  | [] => ([], .exhausted, [])
  | chunk :: rest =>
    let line := chunk.takeWhile (· != newlineByte)
    -- The bound comes before any newline of this chunk.
    if bound ≤ line.length then (line.take bound, .bound, chunk.drop bound :: rest)
    else match chunk.dropWhile (· != newlineByte) with
      -- The newline lies within the bound.
      | _ :: behind => (line, .newline, behind :: rest)
      -- The chunk holds neither, so the line goes on in the next one.
      | [] =>
        let (more, readEnd, behind) := readUntil (bound - line.length) rest
        (line ++ more, readEnd, behind)

/-- Skips what remains of a line with its newline, and counts it without. -/
def skipLine : List (List UInt8) → Nat × ReadEnd × List (List UInt8)
  | [] => (0, .exhausted, [])
  | chunk :: rest =>
    let skipped := (chunk.takeWhile (· != newlineByte)).length
    match chunk.dropWhile (· != newlineByte) with
    | _ :: behind => (skipped, .newline, behind :: rest)
    | [] =>
      let (more, readEnd, behind) := skipLine rest
      (skipped + more, readEnd, behind)

/-- What comes next from a source. -/
inductive Next where
  /-- A line, of which no more than the limit is kept, its whole length, and what follows. -/
  | line (kept : List UInt8) (length : Nat) (rest : List (List UInt8))
  /-- Nothing. -/
  | finished
  /-- A fault, in the middle of a line or between lines. -/
  | failed (fault : FileFault)

/-- What is left when all chunks have been read: a last line, nothing, or a fault. -/
def lastLine (fault : Option FileFault) (kept : List UInt8) (length : Nat) : Next :=
  match fault with
  | some fault => .failed fault
  | none => if length = 0 then .finished else .line kept length []

/-- Reads the next line and skips what it has beyond the limit. -/
def next (limit : Nat) (fault : Option FileFault) (chunks : List (List UInt8)) : Next :=
  match readUntil (limit + 1) chunks with
  | (line, .newline, rest) => .line line line.length rest
  | (line, .exhausted, _) => lastLine fault line line.length
  -- One byte more than the limit was read, so the line is too long whatever follows.
  | (line, .bound, rest) =>
    match skipLine rest with
    | (skipped, .exhausted, _) => lastLine fault (line.take limit) (line.length + skipped)
    | (skipped, _, behind) => .line (line.take limit) (line.length + skipped) behind

/-- A bounded read loses only the newline that it takes. -/
theorem readUntil_bytes (bound : Nat) (chunks : List (List UInt8)) :
    bytes (readUntil bound chunks).2.2 + (readUntil bound chunks).1.length +
      (if (readUntil bound chunks).2.1 = .newline then 1 else 0) = bytes chunks := by
  -- Each chunk is either divided at the end of the read or taken whole.
  induction chunks generalizing bound with
  | nil => simp [readUntil, bytes]
  | cons chunk rest ih =>
    have start := congrArg List.length (List.takeWhile_append_dropWhile (p := (· != newlineByte)) (l := chunk))
    rw [List.length_append] at start
    have more := ih (bound - (chunk.takeWhile (· != newlineByte)).length)
    rcases read : readUntil (bound - (chunk.takeWhile (· != newlineByte)).length) rest with
      ⟨line, readEnd, behind⟩
    rw [read] at more
    simp only [readUntil, read]
    split
    · simp [bytes]
      omega
    · split
      · next found =>
        simp [bytes, found] at start ⊢
        omega
      · next found =>
        simp only [found, List.length_nil] at start
        simp only [List.length_append, bytes, List.flatten_cons] at more ⊢
        omega

/-- A read that ends at its bound has taken as much. -/
theorem readUntil_bound (bound : Nat) (chunks : List (List UInt8))
    (ended : (readUntil bound chunks).2.1 = .bound) : (readUntil bound chunks).1.length = bound := by
  -- The bound shrinks by what is taken from each chunk.
  induction chunks generalizing bound with
  | nil => simp [readUntil] at ended
  | cons chunk rest ih =>
    simp only [readUntil] at ended ⊢
    split
    · simp
      omega
    · next below =>
      rw [if_neg below] at ended
      split at ended
      · simp at ended
      · have more := ih _ ended
        simp only [List.length_append, more]
        omega

/-- Skipping never adds bytes. -/
theorem skipLine_bytes (chunks : List (List UInt8)) : bytes (skipLine chunks).2.2 ≤ bytes chunks := by
  -- Chunks are dropped whole or from their start.
  induction chunks with
  | nil => simp [skipLine, bytes]
  | cons chunk rest ih =>
    rcases skipped : skipLine rest with ⟨more, readEnd, behind⟩
    rw [skipped] at ih
    have start := congrArg List.length (List.takeWhile_append_dropWhile (p := (· != newlineByte)) (l := chunk))
    rw [List.length_append] at start
    simp only [skipLine, skipped]
    split
    · next found =>
      simp [bytes, found] at start ⊢
      omega
    · simp only [bytes, List.flatten_cons, List.length_append] at ih ⊢
      omega

/-- Every line takes something from its source. -/
theorem next_bytes_lt {limit : Nat} {fault : Option FileFault} {chunks rest : List (List UInt8)}
    {kept : List UInt8} {length : Nat} (found : next limit fault chunks = .line kept length rest) :
    bytes rest < bytes chunks := by
  -- A newline counts for itself, and a line without one is not empty.
  have taken := readUntil_bytes (limit + 1) chunks
  have bounded := readUntil_bound (limit + 1) chunks
  unfold next at found
  split at found
  · next line behind read =>
    rw [read] at taken
    cases found
    simp at taken
    omega
  · next line behind read =>
    rw [read] at taken
    unfold lastLine at found
    split at found
    · cases found
    · split at found
      · cases found
      · next filled =>
        cases found
        simp [bytes] at taken ⊢
        omega
  · next line behind read =>
    rw [read] at taken bounded
    have full := bounded rfl
    have skipped := skipLine_bytes behind
    simp only at full
    simp only [reduceCtorEq, if_false] at taken
    split at found
    · unfold lastLine at found
      split at found
      · cases found
      · split at found
        · cases found
        · cases found
          simp [bytes] at taken ⊢
          omega
    · next skip =>
      rw [skip] at skipped
      cases found
      simp only at skipped
      omega

end Source

namespace Loader

/-- Takes a line of which the start was kept, and reports first that it was cut. -/
def takeKept (loader : Loader) (limit number : Nat) (kept : List UInt8) (length : Nat) :
    Loader × List Event :=
  -- The cut is reported before anything that the line says.
  let cuts := if limit < length then [.lineCut number length limit] else []
  let (next, events) := loader.take number (Line.ofChars (Utf8.decode kept))
  (next, cuts ++ events)

/-- Takes all lines of a source, of which the first has a number. -/
def takeSource (loader : Loader) (limit number : Nat) (fault : Option FileFault)
    (chunks : List (List UInt8)) : Except FileFault Loader × List Event :=
  match _found : Source.next limit fault chunks with
  | .finished => (.ok loader, [])
  | .failed fault => (.error fault, [])
  | .line kept length rest =>
    let (next, events) := loader.takeKept limit number kept length
    let (last, more) := next.takeSource limit (number + 1) fault rest
    (last, events ++ more)
  termination_by Source.bytes chunks
  decreasing_by exact Source.next_bytes_lt ‹_›

/-- Takes the lines of bytes that are all there, of which the first has a number. -/
def takeLines (loader : Loader) (limit number : Nat) : List (List UInt8) → Loader × List Event
  | [] => (loader, [])
  | line :: rest =>
    let (next, events) := loader.takeKept limit number (line.take limit) line.length
    let (last, more) := next.takeLines limit (number + 1) rest
    (last, events ++ more)

end Loader

namespace Keyfile

/-- How many bytes a buffer may have at most. -/
def greatestCapacity : Nat := Nat.pow 2 63 - 1

/-- Loads a source through a buffer that has room for a line of the limit, with what is to be reported. -/
def loadBuffered (limit : Nat) (source : Source) : Except FileFault Keyfile × List Event :=
  let (result, events) := Loader.takeSource {} limit 1 source.fault source.chunks
  (result.map Loader.store, events)

/-- Loads a source, with what is to be reported. The buffer is made before anything is read. The program stops without a
result if no buffer may be as large as the limit. -/
def load (limit : Nat) (source : Source) : Option (Except FileFault Keyfile) × List Event :=
  if greatestCapacity < limit then (none, [])
  else
    let (result, events) := loadBuffered limit source
    (some result, events)

/-- Loads a source that has no path, so that its fault is that of a stream. -/
def loadStream (limit : Nat) (source : Source) : Option (Except ConfigError Keyfile) × List Event :=
  let (result, events) := load limit source
  (result.map fun loaded => loaded.mapError .stream, events)

/-- Loads bytes that are all there, with what is to be reported. -/
def loadBytes (limit : Nat) (bytes : List UInt8) : Keyfile × List Event :=
  let (loader, events) := Loader.takeLines {} limit 1 (byteLines bytes)
  (loader.store, events)

/-- With a limit that a buffer may have, a source is loaded through one. -/
theorem load_of_le {limit : Nat} (held : limit ≤ greatestCapacity) (source : Source) :
    load limit source = (some (loadBuffered limit source).1, (loadBuffered limit source).2) :=
  if_neg (Nat.not_lt.2 held)

/-- A source has a result only if a buffer may have the limit. -/
theorem le_of_load {limit : Nat} {source : Source} {result : Except FileFault Keyfile}
    (loaded : (load limit source).1 = some result) : limit ≤ greatestCapacity := by
  rw [load] at loaded
  split at loaded
  · cases loaded
  · next held => exact Nat.not_lt.1 held

/-- With the default limit, a source is loaded through a buffer. -/
theorem load_default (source : Source) : load defaultLineLimit source =
    (some (loadBuffered defaultLineLimit source).1, (loadBuffered defaultLineLimit source).2) :=
  load_of_le (by decide) source

end Keyfile

end ConfigStore
