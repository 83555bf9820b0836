import Mathlib.Data.List.Basic
import ConfigStore.Proofs.Files.Walk

/-! Runs of walks. What is walked first does not depend on the pieces behind, a walk that may follow fewer links does
the same or runs out of them, and a walk that comes back to the same name has led through a directory. -/

namespace ConfigStore.FileSystem

variable {files : FileSystem} {followLast : Bool}

variable {links fewer : Nat} {here there : Option Location} {front left back : List String}

/-- A move does not depend on the pieces behind, which let a link at the end be followed. -/
theorem Moves.append (moves : files.Moves true ⟨links, here, front⟩ ⟨fewer, there, left⟩)
    (followed : back ≠ [] ∨ followLast = true) :
    files.Moves followLast ⟨links, here, front ++ back⟩ ⟨fewer, there, left ++ back⟩ := by
  -- Only a link takes note of whether there are pieces behind.
  cases moves with
  | lostVoid void => exact .lostVoid void
  | lostUp => exact .lostUp
  | void directory void => exact .void directory void
  | up directory => exact .up directory
  | down directory names short found solid => exact .down directory names short found solid
  | link directory names short found _ =>
    rw [List.append_assoc]
    refine .link directory names short found ?_
    rcases followed with behind | always
    · exact .inl (List.append_ne_nil_of_right_ne_nil _ behind)
    · exact .inr always

/-- A move by a piece in front leaves the pieces behind as they are. -/
theorem Moves.split {piece : String} {next : Walk}
    (moves : files.Moves followLast ⟨links, here, piece :: (front ++ back)⟩ next) :
    ∃ fewer there left, next = ⟨fewer, there, left ++ back⟩ ∧
      files.Moves true ⟨links, here, piece :: front⟩ ⟨fewer, there, left⟩ := by
  -- The piece that the move takes is in front, and the target of a link comes before the others.
  cases moves with
  | lostVoid void => exact ⟨_, _, _, rfl, .lostVoid void⟩
  | lostUp => exact ⟨_, _, _, rfl, .lostUp⟩
  | void directory void => exact ⟨_, _, _, rfl, .void directory void⟩
  | up directory => exact ⟨_, _, _, rfl, .up directory⟩
  | down directory names short found solid => exact ⟨_, _, _, rfl, .down directory names short found solid⟩
  | link directory names short found _ =>
    rw [← List.append_assoc]
    exact ⟨_, _, _, rfl, .link directory names short found (.inr rfl)⟩

/-- With fewer links a move is the same, or there are none left. -/
theorem Moves.afford (moves : files.Moves true ⟨links, here, front⟩ ⟨fewer, there, left⟩) (budget : Nat) :
    (∃ rest ≤ budget, files.Moves true ⟨budget, here, front⟩ ⟨rest, there, left⟩) ∨
      files.Ends true ⟨budget, here, front⟩ (.error .tooManyLinks) := by
  -- Only following a link takes one.
  cases moves with
  | lostVoid void => exact .inl ⟨budget, Nat.le_refl _, .lostVoid void⟩
  | lostUp => exact .inl ⟨budget, Nat.le_refl _, .lostUp⟩
  | void directory void => exact .inl ⟨budget, Nat.le_refl _, .void directory void⟩
  | up directory => exact .inl ⟨budget, Nat.le_refl _, .up directory⟩
  | down directory names short found solid =>
    exact .inl ⟨budget, Nat.le_refl _, .down directory names short found solid⟩
  | link directory names short found followed =>
    cases budget with
    | zero => exact .inr (Ends.now (.spent directory names short found followed))
    | succ rest => exact .inl ⟨rest, Nat.le_succ _, .link directory names short found followed⟩

/-- A run does not depend on the pieces behind. -/
theorem Runs.append (run : files.Runs true ⟨links, here, front⟩ ⟨fewer, there, left⟩)
    (followed : back ≠ [] ∨ followLast = true) :
    files.Runs followLast ⟨links, here, front ++ back⟩ ⟨fewer, there, left ++ back⟩ := by
  -- The walk behind the first move has pieces of its own in front.
  generalize start : Walk.mk links here front = walk at run
  induction run using Relation.ReflTransGen.head_induction_on generalizing links here front with
  | refl =>
    cases start
    exact .refl
  | @head walk next moves _ ih =>
    subst start
    obtain ⟨more, place, pieces⟩ := next
    exact .head (moves.append followed) (ih rfl)

/-- A run that leaves no more than the pieces behind has come to the end of those in front. -/
theorem Runs.split {last : Walk} (run : files.Runs followLast ⟨links, here, front ++ back⟩ last)
    (short : last.pieces.length ≤ back.length) :
    ∃ fewer there, files.Runs true ⟨links, here, front⟩ ⟨fewer, there, []⟩ ∧
      files.Runs followLast ⟨fewer, there, back⟩ last := by
  generalize start : Walk.mk links here (front ++ back) = walk at run
  induction run using Relation.ReflTransGen.head_induction_on generalizing links here front with
  | refl =>
    -- The walk has not moved, so there is nothing in front.
    subst start
    have ended : front = [] := by
      simp only [List.length_append] at short
      exact List.eq_nil_of_length_eq_zero (by omega)
    subst ended
    exact ⟨links, here, .refl, .refl⟩
  | @head walk next moves rest ih =>
    subst start
    cases front with
    | nil => exact ⟨links, here, .refl, .head moves rest⟩
    | cons piece front =>
      obtain ⟨more, place, left, rfl, inner⟩ := moves.split
      obtain ⟨fewer, there, first, second⟩ := ih rfl
      exact ⟨fewer, there, .head inner first, second⟩

/-- With fewer links a run is the same, or they run out. -/
theorem Runs.afford (run : files.Runs true ⟨links, here, front⟩ ⟨fewer, there, left⟩) (budget : Nat) :
    (∃ rest ≤ budget, files.Runs true ⟨budget, here, front⟩ ⟨rest, there, left⟩) ∨
      files.Ends true ⟨budget, here, front⟩ (.error .tooManyLinks) := by
  -- The links that are left decrease along the run as they did with more of them.
  generalize start : Walk.mk links here front = walk at run
  induction run using Relation.ReflTransGen.head_induction_on generalizing links here front budget with
  | refl =>
    cases start
    exact .inl ⟨budget, Nat.le_refl _, .refl⟩
  | @head walk next moves _ ih =>
    subst start
    obtain ⟨more, place, pieces⟩ := next
    rcases moves.afford budget with ⟨less, bound, again⟩ | tooMany
    · rcases ih less rfl with ⟨rest, within, run⟩ | tooMany
      · exact .inl ⟨rest, Nat.le_trans within bound, .head again run⟩
      · exact .inr (Ends.later again tooMany)
    · exact .inr tooMany

/-- From one walk only one end without pieces is reached. -/
theorem Runs.unique {walk : Walk} (run : files.Runs followLast walk ⟨links, here, []⟩)
    (again : files.Runs followLast walk ⟨fewer, there, []⟩) : links = fewer ∧ here = there := by
  -- Moves are unique, and without pieces there are none.
  induction run using Relation.ReflTransGen.head_induction_on with
  | refl =>
    rcases again.cases with same | ⟨next, moves, _⟩
    · cases same
      exact ⟨rfl, rfl⟩
    · cases moves
  | head moves _ ih =>
    apply ih
    rcases again.cases with same | ⟨second, first, rest⟩
    · subst same
      cases moves
    · obtain rfl := moves.unique first
      exact rest

/-- Void pieces lead nowhere else. -/
theorem Runs.voids {links fewer : Nat} {here there : Option Location} {pieces : List String}
    (run : files.Runs followLast ⟨links, here, pieces⟩ ⟨fewer, there, []⟩)
    (void : ∀ piece ∈ pieces, Path.isVoid piece = true) : there = here := by
  -- No void piece is a name or leads upwards.
  induction pieces with
  | nil =>
    rcases run.cases with same | ⟨next, moves, _⟩
    · cases same
      rfl
    · cases moves
  | cons piece rest ih =>
    obtain ⟨first, others⟩ := List.forall_mem_cons.1 void
    rcases run.cases with same | ⟨next, moves, more⟩
    · cases same
    · cases moves with
      | lostVoid _ => exact ih more others
      | lostUp => exact absurd first not_isVoid_up
      | void _ _ => exact ih more others
      | up _ => exact absurd first not_isVoid_up
      | down _ names _ _ _ => exact absurd first names.not_isVoid
      | link _ names _ _ _ => exact absurd first names.not_isVoid

/-- A walk in the tree moves from directories only, and stays in the tree. -/
theorem Moves.inside {place : Location} {pieces : List String} {next : Walk}
    (moves : files.Moves followLast ⟨links, some place, pieces⟩ next) :
    files.hasDirectory place = true ∧ ∃ other, next.here = some other := by
  -- Only moves from a directory that has been taken away start elsewhere.
  cases moves with
  | void directory _ => exact ⟨directory, _, rfl⟩
  | up directory => exact ⟨directory, _, rfl⟩
  | down directory _ _ _ _ => exact ⟨directory, _, rfl⟩
  | link directory _ _ _ _ => exact ⟨directory, _, rfl⟩

/-- A walk moves by a name from a directory. -/
theorem Moves.of_names {there : Option Location} {rest : List String} {next : Walk} {piece : String}
    (moves : files.Moves followLast ⟨links, there, piece :: rest⟩ next) (names : Path.Names piece) :
    ∃ place, there = some place ∧ files.hasDirectory place = true := by
  cases there with
  | none =>
    -- Without one, no name leads anywhere.
    cases moves with
    | lostVoid void => exact absurd void names.not_isVoid
    | lostUp => exact absurd rfl names.down
  | some place => exact ⟨place, rfl, moves.inside.1⟩

/-- A walk in the tree stays in the tree. -/
theorem Runs.inside {walk last : Walk} (run : files.Runs followLast walk last) {place : Location}
    (within : walk.here = some place) : ∃ other, last.here = some other := by
  -- From a place in the tree, every move leads to another one.
  induction run using Relation.ReflTransGen.head_induction_on generalizing place with
  | refl => exact ⟨place, within⟩
  | @head walk next moves _ ih =>
    obtain ⟨links, here, pieces⟩ := walk
    simp only at within
    subst within
    obtain ⟨_, other, there⟩ := moves.inside
    exact ih there

/-- With fewer links, a walk in the tree comes to the same place, or they run out. -/
theorem Ends.afford {place found : Location} (ends : files.Ends true ⟨links, some place, front⟩ (.ok (.found found)))
    (budget : Nat) : files.Ends true ⟨budget, some place, front⟩ (.ok (.found found)) ∨
      files.Ends true ⟨budget, some place, front⟩ (.error .tooManyLinks) := by
  obtain ⟨last, run, halts⟩ := ends
  cases halts with
  | found there =>
    rcases run.afford budget with ⟨rest, -, again⟩ | tooMany
    · exact .inl ⟨_, again, .found there⟩
    · exact .inr tooMany
  | link _ _ _ _ kept => cases kept

/-- A walk that goes on when links at its end are not followed goes on alike when they are. -/
theorem Moves.follow {walk next : Walk} (moves : files.Moves false walk next) : files.Moves true walk next := by
  -- Only links at the end of the pieces are followed in one way and not in the other.
  cases moves with
  | lostVoid void => exact .lostVoid void
  | lostUp => exact .lostUp
  | void directory void => exact .void directory void
  | up directory => exact .up directory
  | down directory names short found solid => exact .down directory names short found solid
  | link directory names short found _ => exact .link directory names short found (.inr rfl)

/-- A walk that keeps links at its end keeps its last piece as long as any are left. -/
theorem Moves.getLast? {walk next : Walk} (moves : files.Moves false walk next) (left : next.pieces ≠ []) :
    next.pieces.getLast? = walk.pieces.getLast? := by
  -- Pieces go and come in front of it.
  cases moves with
  | lostVoid _ => exact (List.getLast?_cons_of_ne_nil left).symm
  | lostUp => exact (List.getLast?_cons_of_ne_nil left).symm
  | void _ _ => exact (List.getLast?_cons_of_ne_nil left).symm
  | up _ => exact (List.getLast?_cons_of_ne_nil left).symm
  | down _ _ _ _ _ => exact (List.getLast?_cons_of_ne_nil left).symm
  | link _ _ _ _ followed =>
    have more := followed.resolve_right (by decide)
    rw [List.getLast?_append_of_ne_nil _ more, List.getLast?_cons_of_ne_nil more]

/-- So does a whole run. -/
theorem Runs.getLast? {walk last : Walk} (run : files.Runs false walk last) (left : last.pieces ≠ []) :
    last.pieces.getLast? = walk.pieces.getLast? := by
  -- Where pieces are left at the end, they are all along.
  induction run using Relation.ReflTransGen.head_induction_on with
  | refl => rfl
  | @head walk next moves _ ih =>
    have more : next.pieces ≠ [] := by
      intro ended
      rw [ended, List.getLast?_nil, List.getLast?_eq_none_iff] at ih
      exact left ih
    rw [ih, moves.getLast? more]

section Links

variable {directory : Location} {name target : String}

/-- Where the pieces of a link's target start. -/
def linkBase (directory : Location) (target : String) : Location :=
  if Path.isAbsolute target then [] else directory

/-- A link is followed or there are no links left. -/
theorem link_ends (inside : files.hasDirectory directory = true) (names : Path.Names name)
    (short : name.utf8ByteSize ≤ mostNameBytes) (found : files.node? (directory ++ [name]) = some (.link target))
    (links : Nat) :
    (∃ fewer, links = fewer + 1 ∧ files.Moves true ⟨links, some directory, [name]⟩
        ⟨fewer, some (linkBase directory target), Path.pieces target⟩) ∨
      files.Ends true ⟨links, some directory, [name]⟩ (.error .tooManyLinks) := by
  -- The one link that is taken is either left or not.
  cases links with
  | zero => exact .inr (Ends.now (.spent inside names short found (.inr rfl)))
  | succ fewer =>
    have moves : files.Moves true ⟨fewer + 1, some directory, [name]⟩
        ⟨fewer, some (linkBase directory target), Path.pieces target ++ []⟩ := .link inside names short found (.inr rfl)
    rw [List.append_nil] at moves
    exact .inl ⟨fewer, rfl, moves⟩

/-- A link whose target leads back to it never ends. -/
theorem Ends.of_loop (inside : files.hasDirectory directory = true) (names : Path.Names name)
    (short : name.utf8ByteSize ≤ mostNameBytes) (found : files.node? (directory ++ [name]) = some (.link target))
    (run : files.Runs true ⟨links, some (linkBase directory target), Path.pieces target⟩
      ⟨fewer, some directory, [name]⟩) (budget : Nat) :
    files.Ends true ⟨budget, some directory, [name]⟩ (.error .tooManyLinks) := by
  -- Every round takes at least one link.
  induction budget using Nat.strongRecOn with
  | ind budget ih =>
    rcases link_ends inside names short found budget with ⟨less, rfl, moves⟩ | tooMany
    · rcases run.afford less with ⟨rest, bound, round⟩ | tooMany
      · obtain ⟨last, more, halts⟩ := ih rest (Nat.lt_succ_of_le bound)
        exact ⟨last, .head moves (round.trans more), halts⟩
      · exact Ends.later moves tooMany
    · exact tooMany

/-- A walk that ends by a name has not gone by that name before, unless the name leads to a directory or the walk
never ends. -/
theorem Runs.returns {rest : List String} {next : Walk} {result : Except FileFault Place} (names : Path.Names name)
    (plain : files.hasDirectory (directory ++ [name]) = false)
    (moves : files.Moves true ⟨links, some directory, name :: rest⟩ next)
    (run : files.Runs true next ⟨fewer, some directory, [name]⟩)
    (ends : files.Ends true ⟨fewer, some directory, [name]⟩ result) :
    result = .error .tooManyLinks ∨ ∃ place, result = .ok (.found place) ∧ files.hasDirectory place = true := by
  cases moves with
  | void _ void => exact absurd void names.not_isVoid
  | up _ => exact absurd rfl names.down
  | down _ _ _ found solid =>
    -- What is there is no directory, so there is no way on from it.
    rcases run.cases with same | ⟨_, more, _⟩
    · have place := congrArg Walk.here same
      simp at place
    · rw [more.inside.1] at plain
      cases plain
  | @link links _ _ target _ inside _ short found _ =>
    by_cases last : rest = []
    · subst last
      rw [List.append_nil] at run
      exact .inl (ends.unique (Ends.of_loop inside names short found run fewer))
    · -- The target is passed, so it leads to a directory.
      have length : [name].length ≤ rest.length := List.length_pos_iff.2 last
      obtain ⟨left, there, first, second⟩ := run.split length
      obtain ⟨place, within⟩ := first.inside rfl
      simp only at within
      subst within
      have through : files.hasDirectory place = true := by
        rcases second.cases with same | ⟨_, more, _⟩
        · cases same
          exact inside
        · exact more.inside.1
      rcases link_ends inside names short found fewer with ⟨less, rfl, follows⟩ | tooMany
      · rcases first.afford less with ⟨budget, _, again⟩ | tooMany
        · obtain ⟨mode, node⟩ := hasDirectory_iff.1 through
          have ended : files.Ends true ⟨budget, some place, []⟩ (.ok (.found place)) :=
            Ends.found (by rw [node]; rfl)
          obtain ⟨final, more, halts⟩ := ended
          exact .inr ⟨place, ends.unique ⟨final, .head follows (again.trans more), halts⟩, through⟩
        · exact .inl (ends.unique (Ends.later follows tooMany))
      · exact .inl (ends.unique tooMany)

end Links

end ConfigStore.FileSystem
