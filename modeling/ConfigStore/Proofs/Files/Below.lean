import ConfigStore.Proofs.Files.Keeps

/-! A path below a base, and creating its directory in one that is there. What comes of that depends on what is on the
way, and on whether the path ends in a point. -/

namespace ConfigStore.FileSystem

open Path (namesOf)

/-- A path that leads below a base. Its pieces in front lead to the base, and from there the others lead neither upwards
nor to a link. -/
structure Below (files : FileSystem) (path : String) (base : Location) (pieces : List String) : Prop where
  /-- The path has no fault of its own. -/
  sound : pathFault? path = none
  /-- The base is a directory. -/
  inside : files.hasDirectory base = true
  /-- No piece leads upwards. -/
  level : ".." ∉ pieces
  /-- No name is that of a link. -/
  unlinked : files.Unlinked base (namesOf pieces)
  /-- A walk along the pieces in front comes to the base. -/
  run : ∃ front links, Path.pieces path = front ++ pieces ∧
    files.Runs true ⟨mostLinks, files.start path, front⟩ ⟨links, some base, []⟩

/-- A path is pointed when its last piece is a point, slashes aside. By such a path, no directory is created. -/
def Pointed (path : String) : Prop :=
  (openPieces path).getLast? = some "."

variable {files : FileSystem} {path name : String} {base : Location} {inner names pieces voids : List String}

/-- Without the slashes at its end, a path ends in its last name, unless it is pointed. -/
theorem exists_openPieces {front voids : List String} (whole : Path.pieces path = front ++ name :: voids)
    (proper : Path.isVoid name = false) (void : ∀ piece ∈ voids, Path.isVoid piece = true) :
    ∃ left, openPieces path = front ++ name :: left ∧
      (left = [] ∧ ¬Pointed path ∨ left.all String.isEmpty = false ∧ Pointed path) := by
  have filled : ¬name.isEmpty = true := by
    intro empty
    simp [Path.isVoid, empty] at proper
  have trimmed : openPieces path = front ++ name :: (voids.reverse.dropWhile String.isEmpty).reverse := by
    rw [openPieces, whole, List.reverse_append, List.reverse_cons, List.append_assoc, List.dropWhile_append]
    split
    · next bare =>
      rw [List.isEmpty_iff.1 bare, List.singleton_append, List.dropWhile_cons_of_neg filled]
      simp
    · simp
  refine ⟨_, trimmed, ?_⟩
  cases kept : voids.reverse.dropWhile String.isEmpty with
  | nil =>
    refine .inl ⟨rfl, fun pointed => ?_⟩
    rw [Pointed, trimmed, kept] at pointed
    have point : name = "." := by simpa using pointed
    rw [point] at proper
    exact absurd proper (by decide)
  | cons last inner =>
    -- The last piece that is kept is void and not empty.
    have solid := List.head?_dropWhile_not String.isEmpty voids.reverse
    rw [kept] at solid
    have named : ¬last.isEmpty = true := by simpa using solid
    have member : last ∈ voids := by
      rw [← List.mem_reverse]
      exact (List.dropWhile_sublist _).subset (kept ▸ List.mem_cons_self)
    have point : last = "." := by
      have either := void last member
      rw [Path.isVoid, Bool.or_eq_true, beq_iff_eq] at either
      exact either.resolve_left named
    refine .inr ⟨?_, ?_⟩
    · rw [List.all_eq_false]
      exact ⟨last, by simp, named⟩
    · rw [Pointed, trimmed, kept, point, List.reverse_cons, ← List.cons_append, ← List.append_assoc,
        List.getLast?_concat]

namespace Below

/-- A walk along the path goes on from the base. -/
theorem ends (below : files.Below path base pieces) {result : Except FileFault Place}
    (ends : ∀ links, files.Ends true ⟨links, some base, pieces⟩ result) : files.resolve true path = result := by
  obtain ⟨front, links, whole, run⟩ := below.run
  have walked : files.Runs true ⟨mostLinks, files.start path, Path.pieces path⟩ ⟨links, some base, pieces⟩ := by
    rw [whole]
    exact run.append (.inr rfl)
  obtain ⟨last, more, halts⟩ := ends links
  exact (resolvePieces_ends below.sound _).unique ⟨last, walked.trans more, halts⟩

/-- A path leads to a directory exactly if its way is open. -/
theorem isDirectory_iff (below : files.Below path base pieces) :
    files.isDirectory path = true ↔ files.Open base (namesOf pieces) := by
  obtain ⟨front, links, whole, run⟩ := below.run
  have walked : files.Runs true ⟨mostLinks, files.start path, Path.pieces path⟩ ⟨links, some base, pieces⟩ := by
    rw [whole]
    exact run.append (.inr rfl)
  constructor
  · intro directory
    have ends : files.Ends true ⟨mostLinks, files.start path, Path.pieces path⟩ (files.resolve true path) :=
      resolvePieces_ends below.sound _
    have behind := ends.of_runs walked
    rcases isDirectory_eq_true_iff.1 directory with ⟨mode, leads⟩ | ⟨place, leads, inside⟩
    · -- The walk is in the tree, and stays there.
      rw [leads] at behind
      obtain ⟨last, more, halts⟩ := behind
      obtain ⟨other, there⟩ := Runs.inside more rfl
      cases halts with
      | lost => cases there
    · rw [leads] at behind
      exact (open_of_ends behind inside below.level below.unlinked).1
  · intro isOpen
    have inside := isOpen.end_inside
    refine isDirectory_eq_true_iff.2 (.inr ⟨_, below.ends fun links => ?_, inside⟩)
    have run : files.Runs true ⟨links, some base, pieces ++ []⟩ ⟨links, some (base ++ namesOf pieces), []⟩ :=
      isOpen.runs below.level
    rw [List.append_nil] at run
    exact ⟨_, run, .found (isSome_of_hasDirectory inside)⟩

/-- Without the slashes at its end, the path leads where the pieces behind the base do. -/
theorem resolveEntry_of_ends (below : files.Below path base pieces) {front left : List String}
    {result : Except FileFault Place} (whole : Path.pieces path = front ++ pieces)
    (shown : openPieces path = front ++ left) (filled : left ≠ [])
    (ends : ∀ links, files.Ends false ⟨links, some base, left⟩ result) : files.resolveEntry path = result := by
  obtain ⟨other, links, spelled, run⟩ := below.run
  obtain rfl : other = front := List.append_cancel_right (spelled.symm.trans whole)
  have walked : files.Runs false ⟨mostLinks, files.start path, openPieces path⟩ ⟨links, some base, left⟩ := by
    rw [shown]
    exact run.append (.inl filled)
  obtain ⟨last, more, halts⟩ := ends links
  exact (resolvePieces_ends below.sound _).unique ⟨last, walked.trans more, halts⟩

/-- A path whose way is open leads to a directory. -/
theorem runs_of_open (below : files.Below path base pieces) (isOpen : files.Open base (namesOf pieces)) :
    ∃ links, files.Runs true ⟨mostLinks, files.start path, Path.pieces path⟩
      ⟨links, some (base ++ namesOf pieces), []⟩ := by
  obtain ⟨front, links, whole, run⟩ := below.run
  have behind : files.Runs true ⟨links, some base, pieces ++ []⟩ ⟨links, some (base ++ namesOf pieces), []⟩ :=
    isOpen.runs below.level
  rw [List.append_nil] at behind
  rw [whole]
  exact ⟨links, (run.append (.inr rfl)).trans behind⟩

/-- It is not created. -/
theorem ensureDirectory_of_open (below : files.Below path base pieces) (isOpen : files.Open base (namesOf pieces)) :
    files.ensureDirectory path = (.ok (), files) := by
  obtain ⟨links, run⟩ := below.runs_of_open isOpen
  exact ensureDirectory_of_directory below.sound run isOpen.end_inside

/-- Without the slashes at its end, the path comes to its last name, and goes on behind it only if it is pointed. -/
theorem exists_end (below : files.Below path base (inner ++ name :: voids)) (solid : Path.isVoid name = false)
    (void : ∀ piece ∈ voids, Path.isVoid piece = true) :
    ∃ left, (left = [] ∧ ¬Pointed path ∨ left.all String.isEmpty = false ∧ Pointed path) ∧
      ∀ result, (∀ links, files.Ends false ⟨links, some base, inner ++ name :: left⟩ result) →
        files.resolveEntry path = result := by
  obtain ⟨front, links, whole, run⟩ := below.run
  have spelled : Path.pieces path = front ++ inner ++ name :: voids := by rw [whole, List.append_assoc]
  obtain ⟨left, shown, kind⟩ := exists_openPieces spelled solid void
  rw [List.append_assoc] at shown
  exact ⟨left, kind, fun result ends => below.resolveEntry_of_ends whole shown (by simp) ends⟩

/-- A fault on the way is the answer, unless the path leads to a directory all the same. -/
theorem ensureDirectory_of_fault {fault : FileFault} (below : files.Below path base pieces)
    (closed : ¬files.Open base (namesOf pieces)) (faulty : files.resolveEntry path = .error fault) :
    files.ensureDirectory path = (.error fault, files) := by
  rw [← below.isDirectory_iff] at closed
  rw [ensureDirectory, makeDirectory, faulty]
  simp [closed]

end Below

/-- What comes of creating the directory of a path, by what is on its way. -/
inductive Created (files : FileSystem) (base : Location) (names : List String) (name path : String) :
    Except FileFault Unit × FileSystem → Prop
  /-- The directory is there. -/
  | there (isOpen : files.Open base (names ++ [name])) : Created files base names name path (.ok (), files)
  /-- The directory is missing, and created. -/
  | made {mode : Nat} (isOpen : files.Open base names) (short : name.utf8ByteSize ≤ mostNameBytes)
    (absent : files.node? (base ++ (names ++ [name])) = none) (level : ¬Pointed path) :
    Created files base names name path (.ok (), files.put (base ++ names ++ [name]) (.directory mode))
  /-- The directory is missing, and no directory is created behind a point. -/
  | pointed (isOpen : files.Open base names) (short : name.utf8ByteSize ≤ mostNameBytes)
    (absent : files.node? (base ++ (names ++ [name])) = none) (pointed : Pointed path) :
    Created files base names name path (.error .notFound, files)
  /-- Something is missing above. -/
  | absent (absent : files.node? (base ++ names) = none) : Created files base names name path (.error .notFound, files)
  /-- Something is in the way. -/
  | blocked {fault : FileFault} (other : fault ≠ .notFound)
    (made : ∀ front, front <+: names → files.Free base front → files.hasDirectory (base ++ front) = true)
    (blocked : ¬files.Free base (names ++ [name])) : Created files base names name path (.error fault, files)

namespace Below

/-- Behind an open way, a directory that is missing is created, unless the path is pointed. -/
theorem created_of_absent (below : files.Below path base (inner ++ name :: voids)) (proper : Path.Names name)
    (void : ∀ piece ∈ voids, Path.isVoid piece = true) (isOpen : files.Open base (namesOf inner))
    (short : name.utf8ByteSize ≤ mostNameBytes) (absent : files.node? (base ++ namesOf inner ++ [name]) = none) :
    Created files base (namesOf inner) name path (files.ensureDirectory path) := by
  have level : ".." ∉ inner := fun member => below.level (List.mem_append_left _ member)
  have here := isOpen.end_inside
  have missing : files.node? (base ++ (namesOf inner ++ [name])) = none := by
    rw [← List.append_assoc]
    exact absent
  obtain ⟨left, kind, ends⟩ := below.exists_end proper.solid void
  rcases kind with ⟨rfl, plain⟩ | ⟨more, pointed⟩
  · have lacks := ends _ (isOpen.ends level fun _ => .now (.missing here proper short absent rfl))
    have done : files.ensureDirectory path = (.ok (), files.put (base ++ namesOf inner ++ [name])
        (.directory (files.newDirectoryMode (base ++ namesOf inner)))) := by
      rw [ensureDirectory, makeDirectory, lacks]
    rw [done]
    exact .made isOpen short missing plain
  · have closed : ¬files.Open base (namesOf (inner ++ name :: voids)) := by
      rw [Path.namesOf_last proper void]
      intro whole
      have inside := whole.end_inside
      rw [hasDirectory_of_absent missing] at inside
      cases inside
    rw [below.ensureDirectory_of_fault closed
      (ends _ (isOpen.ends level fun _ => .now (.absent here proper short absent more)))]
    exact .pointed isOpen short missing pointed

/-- Behind an open way, what is by the last name and is no directory is in the way: it is found, or has something behind
it. -/
theorem created_of_plain {node : Node} (below : files.Below path base (inner ++ name :: voids))
    (proper : Path.Names name) (void : ∀ piece ∈ voids, Path.isVoid piece = true)
    (isOpen : files.Open base (namesOf inner)) (short : name.utf8ByteSize ≤ mostNameBytes)
    (found : files.node? (base ++ namesOf inner ++ [name]) = some node) (plain : node.isDirectory = false) :
    Created files base (namesOf inner) name path (files.ensureDirectory path) := by
  have level : ".." ∉ inner := fun member => below.level (List.mem_append_left _ member)
  have named : namesOf (inner ++ name :: voids) = namesOf inner ++ [name] := Path.namesOf_last proper void
  have solid : ∀ target, node ≠ .link target := by
    rintro target rfl
    refine below.unlinked (namesOf inner ++ [name]) (named ▸ List.prefix_rfl) target ?_
    rw [← List.append_assoc]
    exact found
  have closed : ¬files.Free base (namesOf inner ++ [name]) := by
    intro free
    have either := free.solid _ List.prefix_rfl
    rw [← List.append_assoc, found, hasDirectory_of_node found, plain] at either
    simp at either
  have shut : ¬files.Open base (namesOf (inner ++ name :: voids)) := by
    rw [named]
    exact fun whole => closed whole.free
  have made : ∀ front, front <+: namesOf inner → files.Free base front → files.hasDirectory (base ++ front) = true :=
    fun front within _ => isOpen.inside front within
  obtain ⟨left, -, ends⟩ := below.exists_end proper.solid void
  have step : ∀ links, files.Moves false ⟨links, some (base ++ namesOf inner), name :: left⟩
      ⟨links, some (base ++ namesOf inner ++ [name]), left⟩ :=
    fun _ => .down isOpen.end_inside proper short found solid
  cases left with
  | nil =>
    have there := ends _ (isOpen.ends level fun links => .later (step links) (.found (by rw [found]; rfl)))
    rw [← below.isDirectory_iff] at shut
    have done : files.ensureDirectory path = (.error .exists, files) := by
      rw [ensureDirectory, makeDirectory, there]
      simp [shut]
    rw [done]
    exact .blocked (by simp) made closed
  | cons next more =>
    rw [below.ensureDirectory_of_fault shut
      (ends _ (isOpen.ends level fun links => .later (step links) (.now (.blocked found plain))))]
    exact .blocked (by simp) made closed

/-- Behind an open way, the last name decides. -/
theorem created_of_open (below : files.Below path base (inner ++ name :: voids)) (proper : Path.Names name)
    (void : ∀ piece ∈ voids, Path.isVoid piece = true) (isOpen : files.Open base (namesOf inner)) :
    Created files base (namesOf inner) name path (files.ensureDirectory path) := by
  have level : ".." ∉ inner := fun member => below.level (List.mem_append_left _ member)
  have named : namesOf (inner ++ name :: voids) = namesOf inner ++ [name] := Path.namesOf_last proper void
  by_cases short : name.utf8ByteSize ≤ mostNameBytes
  · cases found : files.node? (base ++ namesOf inner ++ [name]) with
    | none => exact below.created_of_absent proper void isOpen short found
    | some node =>
      cases directory : node.isDirectory with
      | true =>
        have whole : files.Open base (namesOf inner ++ [name]) := by
          refine open_append isOpen short ?_
          rw [← List.append_assoc]
          exact (hasDirectory_of_node found).trans directory
        rw [below.ensureDirectory_of_open (named ▸ whole)]
        exact .there whole
      | false => exact below.created_of_plain proper void isOpen short found directory
  · have closed : ¬files.Free base (namesOf inner ++ [name]) := fun free => short (free.short name (by simp))
    have shut : ¬files.Open base (namesOf (inner ++ name :: voids)) := by
      rw [named]
      exact fun whole => closed whole.free
    obtain ⟨left, -, ends⟩ := below.exists_end proper.solid void
    rw [below.ensureDirectory_of_fault shut
      (ends _ (isOpen.ends level fun _ => .now (.long isOpen.end_inside proper (Nat.lt_of_not_le short))))]
    exact .blocked (by simp) (fun front within _ => isOpen.inside front within) closed

/-- Creating the directory of a path whose way has a last name. -/
theorem created (below : files.Below path base pieces) (named : namesOf pieces = names ++ [name]) :
    Created files base names name path (files.ensureDirectory path) := by
  obtain ⟨inner, voids, rfl, rfl, solid, void⟩ := Path.exists_last_name named
  have level : ".." ∉ inner := fun member => below.level (List.mem_append_left _ member)
  have proper : Path.Names name := ⟨solid, fun same => below.level (by simp [same])⟩
  have unlinked : files.Unlinked base (namesOf inner) := below.unlinked.mono (named ▸ List.prefix_append ..)
  obtain ⟨left, -, ends⟩ := below.exists_end solid void
  have fails : ∀ {fault}, ¬files.Open base (namesOf inner ++ [name]) →
      files.Stops base (inner ++ name :: left) fault → files.ensureDirectory path = (.error fault, files) :=
    fun closed stops => below.ensureDirectory_of_fault (named ▸ closed) (ends _ fun links => stops links false)
  have walked : files.Walked base (namesOf inner) (inner ++ name :: left) :=
    walks below.inside level unlinked ⟨name, List.mem_cons_self, proper.ne_empty⟩
  cases walked with
  | through isOpen => exact below.created_of_open proper void isOpen
  | missing absent stops =>
    rw [fails ?_ stops]
    · exact .absent absent
    · intro isOpen
      have inside := isOpen.inside (namesOf inner) (List.prefix_append ..)
      rw [hasDirectory_of_absent absent] at inside
      cases inside
  | blocked other made blocked stops =>
    have closed : ¬files.Free base (namesOf inner ++ [name]) := fun free =>
      blocked (free.mono (List.prefix_append ..))
    rw [fails (fun isOpen => closed isOpen.free) stops]
    exact .blocked other made closed

end Below

end ConfigStore.FileSystem
