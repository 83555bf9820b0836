import ConfigStore.Proofs.Files.Resolve
import ConfigStore.Proofs.Path.Shape

/-! Ways by names, straight down from a base. A walk along them passes directories, or stops at what is missing or in the
way. -/

namespace ConfigStore.FileSystem

open Path (namesOf)

variable {files : FileSystem} {followLast : Bool} {links : Nat} {base place : Location} {name : String}
  {names pieces back : List String}

/-- A way that is open: a directory is by each of its names. -/
structure Open (files : FileSystem) (base : Location) (names : List String) : Prop where
  /-- No name is too long. -/
  short : ∀ name ∈ names, name.utf8ByteSize ≤ mostNameBytes
  /-- The base and all that is on the way are directories. -/
  inside : ∀ front, front <+: names → files.hasDirectory (base ++ front) = true

/-- A way that is free: nothing but directories is on it, and more of them may be. -/
structure Free (files : FileSystem) (base : Location) (names : List String) : Prop where
  /-- No name is too long. -/
  short : ∀ name ∈ names, name.utf8ByteSize ≤ mostNameBytes
  /-- Nothing or a directory is at each place. -/
  solid : ∀ front, front <+: names → files.node? (base ++ front) = none ∨ files.hasDirectory (base ++ front) = true

/-- A way without links. -/
def Unlinked (files : FileSystem) (base : Location) (names : List String) : Prop :=
  ∀ front, front <+: names → ∀ target, files.node? (base ++ front) ≠ some (.link target)

/-- Names with one more behind them are not the first of them. -/
theorem not_concat_prefix : ¬names ++ [name] <+: names := fun within =>
  absurd within.length_le (by simp)

/-- Nothing on a way is where another name leads from its end. -/
theorem ne_of_within {front : List String} (within : front <+: names) : base ++ front ≠ base ++ (names ++ [name]) :=
  fun same => not_concat_prefix (List.append_cancel_left same ▸ within)

/-- A directory is no link. -/
theorem not_link_of_hasDirectory {target : String} (directory : files.hasDirectory place = true) :
    files.node? place ≠ some (.link target) := by
  obtain ⟨mode, found⟩ := hasDirectory_iff.1 directory
  rw [found]
  simp

/-- Without names, the way is open when its base is a directory. -/
theorem open_nil (inside : files.hasDirectory base = true) : files.Open base [] where
  short name member := absurd member List.not_mem_nil
  inside front within := by
    rw [List.prefix_nil.1 within, List.append_nil]
    exact inside

/-- A way is open when the one behind its first name is. -/
theorem open_cons (short : name.utf8ByteSize ≤ mostNameBytes) (inside : files.hasDirectory base = true)
    (behind : files.Open (base ++ [name]) names) : files.Open base (name :: names) where
  short := List.forall_mem_cons.2 ⟨short, behind.short⟩
  inside front within := by
    rcases List.prefix_cons_iff.1 within with rfl | ⟨more, rfl, rest⟩
    · rw [List.append_nil]
      exact inside
    · rw [List.append_cons]
      exact behind.inside more rest

/-- A way goes on by a last name. -/
theorem open_append (isOpen : files.Open base names) (short : name.utf8ByteSize ≤ mostNameBytes)
    (inside : files.hasDirectory (base ++ (names ++ [name])) = true) : files.Open base (names ++ [name]) where
  short := by
    intro other member
    rcases List.mem_append.1 member with before | last
    · exact isOpen.short other before
    · rw [List.mem_singleton.1 last]
      exact short
  inside front within := by
    rcases List.prefix_concat_iff.1 within with rfl | before
    · exact inside
    · exact isOpen.inside front before

namespace Open

/-- The base of a way is a directory. -/
theorem base_inside (isOpen : files.Open base names) : files.hasDirectory base = true := by
  have top := isOpen.inside [] List.nil_prefix
  rwa [List.append_nil] at top

/-- So is its end. -/
theorem end_inside (isOpen : files.Open base names) : files.hasDirectory (base ++ names) = true :=
  isOpen.inside names List.prefix_rfl

/-- The way behind the first name is open as well. -/
theorem tail (isOpen : files.Open base (name :: names)) : files.Open (base ++ [name]) names where
  short other member := isOpen.short other (List.mem_cons_of_mem _ member)
  inside front within := by
    rw [← List.append_cons]
    exact isOpen.inside (name :: front) (List.cons_prefix_cons.2 ⟨rfl, within⟩)

/-- A way that is open is free. -/
theorem free (isOpen : files.Open base names) : files.Free base names where
  short := isOpen.short
  solid front within := .inr (isOpen.inside front within)

/-- A walk along an open way comes to its end. -/
theorem runs (isOpen : files.Open base (namesOf pieces)) (level : ".." ∉ pieces) :
    files.Runs followLast ⟨links, some base, pieces ++ back⟩ ⟨links, some (base ++ namesOf pieces), back⟩ := by
  -- A piece is passed over, or it is the next name.
  induction pieces generalizing base with
  | nil =>
    rw [show namesOf [] = [] from rfl, List.append_nil, List.nil_append]
  | cons piece rest ih =>
    have other : piece ≠ ".." := fun same => level (same ▸ List.mem_cons_self)
    have deeper : ".." ∉ rest := fun member => level (List.mem_cons_of_mem _ member)
    by_cases void : Path.isVoid piece = true
    · rw [Path.namesOf_cons_void void] at isOpen ⊢
      exact .head (.void isOpen.base_inside void) (ih isOpen deeper)
    · have proper := Path.Names.of_not_isVoid void other
      rw [Path.namesOf_cons_name proper] at isOpen ⊢
      have here := isOpen.tail.base_inside
      obtain ⟨mode, found⟩ := hasDirectory_iff.1 here
      rw [List.append_cons]
      refine .head (.down isOpen.base_inside proper (isOpen.short _ List.mem_cons_self) found (by simp)) ?_
      exact ih isOpen.tail deeper

/-- A walk along an open way ends as it does behind it. -/
theorem ends {result : Except FileFault Place} (isOpen : files.Open base (namesOf pieces)) (level : ".." ∉ pieces)
    (ends : ∀ links, files.Ends followLast ⟨links, some (base ++ namesOf pieces), back⟩ result) :
    ∀ links, files.Ends followLast ⟨links, some base, pieces ++ back⟩ result := by
  intro links
  obtain ⟨last, run, halts⟩ := ends links
  exact ⟨last, (isOpen.runs level).trans run, halts⟩

end Open

/-- The way behind the first name has no links either. -/
theorem Unlinked.tail (unlinked : files.Unlinked base (name :: names)) : files.Unlinked (base ++ [name]) names := by
  intro front within
  rw [← List.append_cons]
  exact unlinked (name :: front) (List.cons_prefix_cons.2 ⟨rfl, within⟩)

/-- A shorter way has no links either. -/
theorem Unlinked.mono {fewer : List String} (unlinked : files.Unlinked base names) (within : fewer <+: names) :
    files.Unlinked base fewer :=
  fun front before => unlinked front (before.trans within)

/-- A shorter way is free as well. -/
theorem Free.mono {fewer : List String} (free : files.Free base names) (within : fewer <+: names) :
    files.Free base fewer where
  short name member := free.short name (within.subset member)
  solid front before := free.solid front (before.trans within)

/-- The way behind the first name is free as well. -/
theorem Free.tail (free : files.Free base (name :: names)) : files.Free (base ++ [name]) names where
  short other member := free.short other (List.mem_cons_of_mem _ member)
  solid front within := by
    rw [← List.append_cons]
    exact free.solid (name :: front) (List.cons_prefix_cons.2 ⟨rfl, within⟩)

/-- Nothing is below what is missing. -/
theorem node?_below (absent : files.node? base = none) (names : List String) : files.node? (base ++ names) = none := by
  rw [← Option.not_isSome_iff_eq_none]
  intro there
  have above := node?_front there
  rw [absent] at above
  cases above

/-- A way is not free if something else than a directory is by its first name. -/
theorem not_free_of_plain {node : Node} (found : files.node? (base ++ [name]) = some node)
    (plain : node.isDirectory = false) : ¬files.Free base (name :: names) := by
  intro free
  rcases free.solid [name] (List.cons_prefix_cons.2 ⟨rfl, List.nil_prefix⟩) with absent | directory
  · rw [found] at absent
    cases absent
  · rw [hasDirectory_of_node found, plain] at directory
    cases directory

/-- A walk from a base stops with a fault, however many links it may follow. -/
def Stops (files : FileSystem) (base : Location) (whole : List String) (fault : FileFault) : Prop :=
  ∀ links followLast, files.Ends followLast ⟨links, some base, whole⟩ (.error fault)

/-- A walk that goes on stops as it does from there. -/
theorem Stops.later {fault : FileFault} {whole : List String} (stops : files.Stops place back fault)
    (moves : ∀ links followLast, files.Moves followLast ⟨links, some base, whole⟩ ⟨links, some place, back⟩) :
    files.Stops base whole fault :=
  fun links followLast => .later (moves links followLast) (stops links followLast)

/-- How far a walk with more to come goes along a way. -/
inductive Walked (files : FileSystem) (base : Location) (names whole : List String) : Prop
  /-- The way is open. -/
  | through (isOpen : files.Open base names) : Walked files base names whole
  /-- Something is missing. -/
  | missing (absent : files.node? (base ++ names) = none) (stops : files.Stops base whole .notFound) :
    Walked files base names whole
  /-- Something is in the way, behind all the directories that may be there. -/
  | blocked {fault : FileFault} (other : fault ≠ .notFound)
    (made : ∀ front, front <+: names → files.Free base front → files.hasDirectory (base ++ front) = true)
    (closed : ¬files.Free base names) (stops : files.Stops base whole fault) : Walked files base names whole

namespace Walked

variable {whole : List String} {piece : String}

/-- A void piece leaves the walk where it is. -/
theorem void (inside : files.hasDirectory base = true) (void : Path.isVoid piece = true)
    (walked : files.Walked base names whole) : files.Walked base names (piece :: whole) := by
  have step : ∀ links followLast, files.Moves followLast ⟨links, some base, piece :: whole⟩ ⟨links, some base, whole⟩ :=
    fun _ _ => .void inside void
  cases walked with
  | through isOpen => exact .through isOpen
  | missing absent stops => exact .missing absent (stops.later step)
  | blocked other made closed stops => exact .blocked other made closed (stops.later step)

/-- By the name of a directory, the walk goes on there. -/
theorem down (inside : files.hasDirectory base = true) (proper : Path.Names name)
    (short : name.utf8ByteSize ≤ mostNameBytes) (here : files.hasDirectory (base ++ [name]) = true)
    (walked : files.Walked (base ++ [name]) names whole) : files.Walked base (name :: names) (name :: whole) := by
  obtain ⟨mode, found⟩ := hasDirectory_iff.1 here
  have step : ∀ links followLast, files.Moves followLast ⟨links, some base, name :: whole⟩
      ⟨links, some (base ++ [name]), whole⟩ := fun _ _ => .down inside proper short found (by simp)
  cases walked with
  | through isOpen => exact .through (open_cons short inside isOpen)
  | missing absent stops =>
    rw [← List.append_cons] at absent
    exact .missing absent (stops.later step)
  | blocked other made closed stops =>
    refine .blocked other (fun front within free => ?_) (fun free => closed free.tail) (stops.later step)
    rcases List.prefix_cons_iff.1 within with rfl | ⟨more, rfl, behind⟩
    · rw [List.append_nil]
      exact inside
    · rw [List.append_cons]
      exact made more behind free.tail

/-- When the first name is in the way already, no other directory is on it. -/
theorem at_first {fault : FileFault} (inside : files.hasDirectory base = true) (other : fault ≠ .notFound)
    (closed : ∀ names, ¬files.Free base (name :: names)) (stops : files.Stops base whole fault) :
    files.Walked base (name :: names) whole := by
  refine .blocked other (fun front within free => ?_) (closed names) stops
  rcases List.prefix_cons_iff.1 within with rfl | ⟨more, rfl, -⟩
  · rw [List.append_nil]
    exact inside
  · exact absurd free (closed more)

end Walked

/-- A walk along a way goes through, or stops at what is missing or in the way. -/
theorem walks (inside : files.hasDirectory base = true) (level : ".." ∉ pieces)
    (unlinked : files.Unlinked base (namesOf pieces)) (filled : ∃ piece ∈ back, piece ≠ "") :
    files.Walked base (namesOf pieces) (pieces ++ back) := by
  induction pieces generalizing base with
  | nil => exact .through (open_nil inside)
  | cons piece rest ih =>
    have other : piece ≠ ".." := fun same => level (same ▸ List.mem_cons_self)
    have deeper : ".." ∉ rest := fun member => level (List.mem_cons_of_mem _ member)
    obtain ⟨last, member, proper⟩ := filled
    have behind : last ∈ rest ++ back := List.mem_append_right rest member
    by_cases void : Path.isVoid piece = true
    · rw [Path.namesOf_cons_void void] at unlinked ⊢
      exact .void inside void (ih inside deeper unlinked)
    · have names := Path.Names.of_not_isVoid void other
      rw [Path.namesOf_cons_name names] at unlinked ⊢
      by_cases short : piece.utf8ByteSize ≤ mostNameBytes
      · cases found : files.node? (base ++ [piece]) with
        | none =>
          refine .missing ?_ fun links followLast => .now (.absent inside names short found ?_)
          · rw [List.append_cons]
            exact node?_below found _
          · -- The piece behind that is not empty does not let it be the last.
            rw [List.all_eq_false]
            exact ⟨last, behind, by simpa using proper⟩
        | some node =>
          have solid : ∀ target, node ≠ .link target := by
            rintro target rfl
            exact unlinked [piece] (List.cons_prefix_cons.2 ⟨rfl, List.nil_prefix⟩) target found
          by_cases directory : node.isDirectory = true
          · have here : files.hasDirectory (base ++ [piece]) = true := (hasDirectory_of_node found).trans directory
            exact .down inside names short here (ih here deeper unlinked.tail)
          · rw [Bool.not_eq_true] at directory
            refine .at_first inside (by simp : FileFault.notDirectory ≠ .notFound)
              (fun _ => not_free_of_plain found directory) ?_
            intro links followLast
            obtain ⟨next, left, spelled⟩ := List.exists_cons_of_ne_nil (List.ne_nil_of_mem behind)
            rw [List.cons_append, spelled]
            exact .later (.down inside names short found solid) (.now (.blocked found directory))
      · refine .at_first inside (by simp : FileFault.nameTooLong ≠ .notFound)
          (fun _ free => short (free.short piece List.mem_cons_self)) fun links followLast => ?_
        exact .now (.long inside names (Nat.lt_of_not_le short))

/-- A way on which a walk comes to a directory is open, and the directory is at its end. -/
theorem open_of_ends (ends : files.Ends true ⟨links, some base, pieces⟩ (.ok (.found place)))
    (inside : files.hasDirectory place = true) (level : ".." ∉ pieces)
    (unlinked : files.Unlinked base (namesOf pieces)) :
    files.Open base (namesOf pieces) ∧ place = base ++ namesOf pieces := by
  induction pieces generalizing base links with
  | nil =>
    have there : place = base := by
      obtain ⟨last, run, halts⟩ := ends
      rcases run.cases with same | ⟨next, moves, -⟩
      · subst same
        cases halts with
        | found _ => rfl
      · cases moves
    subst there
    exact ⟨open_nil inside, (List.append_nil _).symm⟩
  | cons piece rest ih =>
    have other : piece ≠ ".." := fun same => level (same ▸ List.mem_cons_self)
    have deeper : ".." ∉ rest := fun member => level (List.mem_cons_of_mem _ member)
    obtain ⟨last, run, halts⟩ := ends
    rcases run.cases with same | ⟨next, moves, more⟩
    · subst same
      -- With pieces left, a walk that follows links finds nothing yet.
      cases halts with
      | link _ _ _ _ kept => cases kept
    · have behind : files.Ends true next (.ok (.found place)) := ⟨last, more, halts⟩
      cases moves with
      | void _ void =>
        rw [Path.namesOf_cons_void void] at unlinked ⊢
        exact ih behind deeper unlinked
      | up _ => exact absurd rfl other
      | down here proper short _ _ =>
        rw [Path.namesOf_cons_name proper] at unlinked ⊢
        obtain ⟨isOpen, rfl⟩ := ih behind deeper unlinked.tail
        exact ⟨open_cons short here isOpen, (List.append_cons ..).symm⟩
      | link _ proper _ found _ =>
        rw [Path.namesOf_cons_name proper] at unlinked
        exact absurd found (unlinked [piece] (List.cons_prefix_cons.2 ⟨rfl, List.nil_prefix⟩) _)

end ConfigStore.FileSystem
