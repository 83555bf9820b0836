import ConfigStore.Proofs.Files.Resolve

/-! Walks that are grounded: whatever is above the place where they are is a directory, and the way there is spelled
by names. A walk to a file comes by the file's name at last, and a path spelled by the names on the way leads to the
same place. -/

namespace ConfigStore.FileSystem

variable {files : FileSystem} {followLast : Bool} {here : Location}

/-- A place below directories. -/
def Grounded (files : FileSystem) (place : Location) : Prop :=
  ∀ front back, place = front ++ back → back ≠ [] → files.hasDirectory front = true

/-- What any system of files promises: its root is a directory, and relative paths start in a directory below
directories, all by proper names, unless that directory has been taken away. -/
structure Anchored (files : FileSystem) : Prop where
  /-- The root is a directory. -/
  root : files.hasDirectory [] = true
  /-- So is every place on the way to where relative paths start. -/
  directories : files.lost = none → ∀ front back, files.workDir = front ++ back → files.hasDirectory front = true
  /-- The names on that way name something, and hold no slash. -/
  names : files.lost = none → ∀ name ∈ files.workDir, Path.Names name ∧ '/' ∉ name.toList

/-- A system of files promises all of this if relative paths start at the root. -/
theorem anchored_of_root {files : FileSystem} (workDir : files.workDir = []) (root : files.hasDirectory [] = true) :
    Anchored files := by
  -- The root has nothing above it.
  refine ⟨root, fun _ front back split => ?_, fun _ name member => ?_⟩
  · rw [workDir] at split
    rw [(List.append_eq_nil_iff.1 split.symm).1]
    exact root
  · rw [workDir] at member
    cases member

/-- So does one with nothing but a root. -/
theorem anchored_empty : Anchored {} :=
  anchored_of_root rfl (by decide)

namespace Grounded

/-- Nothing is above the root. -/
theorem root (files : FileSystem) : files.Grounded [] := by
  intro front back split filled
  exact absurd (List.append_eq_nil_iff.1 split.symm).2 filled

/-- The directory above is below directories too. -/
theorem up (grounded : files.Grounded here) : files.Grounded here.dropLast := by
  -- What is above the directory above is above the place itself.
  intro front back split filled
  rcases List.eq_nil_or_concat here with rfl | ⟨above, name, rfl⟩
  · exact root files front back split filled
  · rw [List.concat_eq_append, List.dropLast_concat] at split
    refine grounded front (back ++ [name]) ?_ (by simp)
    rw [split, List.concat_eq_append, List.append_assoc]

/-- Whatever is in a directory below directories is below directories. -/
theorem down (grounded : files.Grounded here) (directory : files.hasDirectory here = true) (name : String) :
    files.Grounded (here ++ [name]) := by
  intro front back split filled
  rcases List.eq_nil_or_concat back with rfl | ⟨inner, last, rfl⟩
  · exact absurd rfl filled
  · rw [List.concat_eq_append, ← List.append_assoc] at split
    have same := (List.append_singleton_inj.1 split).1
    -- The directory itself is above, and so is what is above it.
    by_cases bare : inner = []
    · rw [bare, List.append_nil] at same
      exact same ▸ directory
    · exact grounded front inner same bare

/-- The directory above a place is one. -/
theorem directory_up (grounded : files.Grounded here) (directory : files.hasDirectory here = true) :
    files.hasDirectory here.dropLast = true := by
  -- The directory above is on the way to the place, unless both are the root.
  rcases List.eq_nil_or_concat here with rfl | ⟨above, name, rfl⟩
  · exact directory
  · rw [List.concat_eq_append, List.dropLast_concat]
    exact grounded above [name] List.concat_eq_append (List.cons_ne_nil _ _)

/-- Something is below a root that is a directory. -/
theorem directory_root (grounded : files.Grounded here) (directory : files.hasDirectory here = true) :
    files.hasDirectory [] = true := by
  -- The root is above any other place.
  by_cases top : here = []
  · exact top ▸ directory
  · exact grounded [] here rfl top

end Grounded

/-- A walk in the tree below directories, by names without slashes. -/
structure Spelled (files : FileSystem) (walk : Walk) : Prop where
  /-- The walk is in the tree, below directories. -/
  grounded : ∃ here, walk.here = some here ∧ files.Grounded here ∧ ∀ name ∈ here, Path.Names name ∧ '/' ∉ name.toList
  /-- No piece that is left holds a slash. -/
  plain : ∀ piece ∈ walk.pieces, '/' ∉ piece.toList

/-- A walk stays below directories, and goes by names without slashes. -/
theorem Spelled.moves {walk next : Walk} (spelled : files.Spelled walk) (moves : files.Moves followLast walk next) :
    files.Spelled next := by
  -- Names come from the pieces, and those of a link from its target, without slashes in them.
  obtain ⟨⟨place, there, grounded, names⟩, plain⟩ := spelled
  cases moves with
  | lostVoid _ => cases there
  | lostUp => cases there
  | void _ _ =>
    cases there
    exact ⟨⟨_, rfl, grounded, names⟩, fun piece member => plain piece (List.mem_cons_of_mem _ member)⟩
  | up _ =>
    cases there
    refine ⟨⟨_, rfl, grounded.up, fun name member => ?_⟩,
      fun piece member => plain piece (List.mem_cons_of_mem _ member)⟩
    exact names name ((List.dropLast_sublist _).subset member)
  | down directory proper _ _ _ =>
    cases there
    refine ⟨⟨_, rfl, grounded.down directory _, fun name member => ?_⟩,
      fun piece member => plain piece (List.mem_cons_of_mem _ member)⟩
    rcases List.mem_append.1 member with above | own
    · exact names name above
    · rw [List.mem_singleton.1 own]
      exact ⟨proper, plain _ (List.mem_cons_self ..)⟩
  | @link _ _ _ target _ _ _ _ _ _ =>
    cases there
    refine ⟨?_, fun piece member => ?_⟩
    · by_cases absolute : Path.isAbsolute target = true
      · exact ⟨[], by simp only [if_pos absolute], .root files, fun name member => absurd member List.not_mem_nil⟩
      · exact ⟨_, by simp only [if_neg absolute], grounded, names⟩
    · rcases List.mem_append.1 member with inner | behind
      · exact Path.not_mem_of_mem_pieces inner
      · exact plain piece (List.mem_cons_of_mem _ behind)

/-- So does a whole run. -/
theorem Spelled.runs {walk last : Walk} (spelled : files.Spelled walk) (run : files.Runs followLast walk last) :
    files.Spelled last := by
  -- Each move of the run keeps it.
  induction run with
  | refl => exact spelled
  | tail _ moves ih => exact ih.moves moves

variable {links fewer : Nat} {there : Location}

/-- A walk to what is no directory goes by its name at last, and does not follow a link there. -/
theorem Runs.by_name {walk : Walk} (run : files.Runs true walk ⟨links, some there, []⟩) (spelled : files.Spelled walk)
    (left : walk.pieces ≠ []) (plain : files.hasDirectory there = false) :
    ∃ directory name, there = directory ++ [name] ∧ files.Runs true walk ⟨links, some directory, [name]⟩ ∧
      ∀ target, files.node? there ≠ some (.link target) := by
  rcases Relation.ReflTransGen.cases_tail run with same | ⟨middle, before, moves⟩
  · subst same
    exact absurd rfl left
  · obtain ⟨place, within, grounded, -⟩ := (spelled.runs before).grounded
    generalize final : Walk.mk links (some there) [] = next at moves
    cases moves with
    | lostVoid _ => cases within
    | lostUp => cases within
    | void directory _ =>
      -- The walk would have been at a directory already.
      cases final
      rw [directory] at plain
      cases plain
    | up directory =>
      cases within
      cases final
      rw [grounded.directory_up directory] at plain
      cases plain
    | down _ _ _ found solid =>
      cases final
      refine ⟨_, _, rfl, before, ?_⟩
      intro target link
      rw [found] at link
      exact solid target (Option.some.inj link)
    | link _ _ _ _ _ =>
      -- The target has pieces that would be left.
      have ended := congrArg Walk.pieces final
      exact absurd (List.append_eq_nil_iff.1 ended.symm).1 (Path.pieces_ne_nil _)

/-- A run by names through directories goes straight down. -/
theorem Runs.straight {names : List String}
    (run : files.Runs followLast ⟨links, some here, names⟩ ⟨fewer, some there, []⟩)
    (proper : ∀ name ∈ names, Path.Names name)
    (through : ∀ front back, names = front ++ back → files.hasDirectory (here ++ front) = true) :
    there = here ++ names := by
  induction names generalizing here links with
  | nil =>
    rcases run.cases with same | ⟨next, moves, _⟩
    · cases same
      exact (List.append_nil _).symm
    · cases moves
  | cons name rest ih =>
    obtain ⟨names, others⟩ := List.forall_mem_cons.1 proper
    have below := through [name] rest rfl
    rcases run.cases with same | ⟨next, moves, more⟩
    · cases same
    · cases moves with
      | void _ void => exact absurd void names.not_isVoid
      | up _ => exact absurd rfl names.down
      | down _ _ _ _ _ =>
        have tail := ih more others fun front back split => by
          have whole := through (name :: front) back (by rw [split, List.cons_append])
          rwa [List.append_cons] at whole
        rw [tail, List.append_assoc, List.singleton_append]
      | link _ _ _ found _ =>
        -- No link is a directory.
        obtain ⟨mode, directory⟩ := hasDirectory_iff.1 below
        rw [found] at directory
        cases directory

end ConfigStore.FileSystem
