import ConfigStore.Proofs.Files.Follow
import ConfigStore.Proofs.Files.Run

/-! What a walk sees of files: what is where it is, and what is below there by the name that comes next. In files that look
the same wherever a walk comes by, it goes the same way. How directories may be used makes no difference to that. -/

namespace ConfigStore

/-- What a walk can tell of something: all but the permissions of a directory. -/
def Node.outline : Node → Node
  | .directory _ => .directory Node.directoryMode
  | node => node

namespace FileSystem

/-- What a walk can tell of what is at a place. -/
def seen? (files : FileSystem) (place : Location) : Option Node :=
  (files.node? place).map Node.outline

variable {files other : FileSystem} {followLast : Bool} {links : Nat} {place : Location}

section Seen

/-- Where the same is, the same is seen. -/
theorem seen?_congr (same : other.node? place = files.node? place) : other.seen? place = files.seen? place :=
  congrArg (Option.map Node.outline) same

/-- Nothing is seen where nothing is. -/
theorem seen?_eq_none_iff : files.seen? place = none ↔ files.node? place = none :=
  Option.map_eq_none_iff

/-- A directory is seen as one. -/
theorem seen?_eq_directory_iff {mode : Nat} :
    files.seen? place = some (.directory mode) ↔ mode = Node.directoryMode ∧ files.hasDirectory place = true := by
  rw [seen?, hasDirectory]
  cases files.node? place with
  | none => simp
  | some node => cases node <;> simp [Node.outline, Node.isDirectory, eq_comm]

/-- Anything else is seen as it is. -/
theorem seen?_eq_some_iff {node : Node} (plain : node.isDirectory = false) :
    files.seen? place = some node ↔ files.node? place = some node := by
  rw [seen?]
  cases files.node? place with
  | none => simp
  | some found =>
    cases found with
    | directory mode =>
      have other : Node.directory mode ≠ node := by
        rintro rfl
        cases plain
      have otherwise : Node.directory Node.directoryMode ≠ node := by
        rintro rfl
        cases plain
      simp [Node.outline, other, otherwise]
    | file mode content => rfl
    | link target => rfl

/-- Where the same is seen, there is a directory in both or in none. -/
theorem hasDirectory_of_seen (same : other.seen? place = files.seen? place) :
    other.hasDirectory place = files.hasDirectory place := by
  rw [Bool.eq_iff_iff]
  have one := @seen?_eq_directory_iff files place Node.directoryMode
  have two := @seen?_eq_directory_iff other place Node.directoryMode
  rw [same] at two
  simpa using two.symm.trans one

/-- All directories are seen alike. -/
theorem seen?_of_directories (inside : files.hasDirectory place = true) (again : other.hasDirectory place = true) :
    other.seen? place = files.seen? place :=
  (seen?_eq_directory_iff.2 ⟨rfl, again⟩).trans (seen?_eq_directory_iff.2 ⟨rfl, inside⟩).symm

/-- What is no directory is the same where the same is seen. -/
theorem node?_of_seen (same : other.seen? place = files.seen? place) {node : Node} (plain : node.isDirectory = false)
    (found : files.node? place = some node) : other.node? place = some node :=
  (seen?_eq_some_iff plain).1 (same.trans ((seen?_eq_some_iff plain).2 found))

/-- Nothing is where nothing is seen. -/
theorem absent_of_seen (same : other.seen? place = files.seen? place) (absent : files.node? place = none) :
    other.node? place = none :=
  seen?_eq_none_iff.1 (same.trans (seen?_eq_none_iff.2 absent))

/-- Where the same is seen, there is something in both or in none. -/
theorem isSome_of_seen (same : other.seen? place = files.seen? place) :
    (other.node? place).isSome = (files.node? place).isSome := by
  have count := congrArg Option.isSome same
  rwa [seen?, seen?, Option.isSome_map, Option.isSome_map] at count

/-- What is no link is none where the same is seen. -/
theorem exists_solid_of_seen (same : other.seen? place = files.seen? place) {node : Node}
    (found : files.node? place = some node) (solid : ∀ target, node ≠ .link target) :
    ∃ twin, other.node? place = some twin ∧ (∀ target, twin ≠ .link target) ∧ twin.isDirectory = node.isDirectory := by
  cases node with
  | directory mode =>
    have inside := (hasDirectory_of_seen same).trans (hasDirectory_of_node found)
    obtain ⟨other, twin⟩ := hasDirectory_iff.1 inside
    exact ⟨_, twin, by simp, rfl⟩
  | file mode content => exact ⟨_, node?_of_seen same rfl found, solid, rfl⟩
  | link target => exact absurd rfl (solid target)

end Seen

/-- A walk sees what is where it is, and in a directory also what is by the name that comes next. -/
inductive Sees (files : FileSystem) : Walk → Location → Prop
  | here {links : Nat} {here : Location} {pieces : List String} : Sees files ⟨links, some here, pieces⟩ here
  | below {links : Nat} {here : Location} {piece : String} {rest : List String}
    (inside : files.hasDirectory here = true) (names : Path.Names piece) :
    Sees files ⟨links, some here, piece :: rest⟩ (here ++ [piece])

/-- Two systems of files look the same to a walk: it can tell no more of them than where relative paths start, and what it
sees. -/
structure Agrees (files other : FileSystem) (walk : Walk) : Prop where
  /-- Either both have lost the directory for relative paths or none has. -/
  lost : other.lost = files.lost
  /-- Relative paths start in the same directory. -/
  workDir : other.workDir = files.workDir
  /-- The same is seen. -/
  seen : ∀ place, files.Sees walk place → other.seen? place = files.seen? place

namespace Agrees

variable {walk : Walk} {piece : String} {rest pieces : List String}

/-- A walk is at a directory in both or in none. -/
theorem hasDirectory (agrees : Agrees files other ⟨links, some place, pieces⟩) :
    other.hasDirectory place = files.hasDirectory place :=
  hasDirectory_of_seen (agrees.seen _ .here)

/-- None of the two is the first. -/
theorem symm (agrees : Agrees files other walk) : Agrees other files walk where
  lost := agrees.lost.symm
  workDir := agrees.workDir.symm
  seen place sees := by
    cases sees with
    | here => exact (agrees.seen _ .here).symm
    | below inside names => exact (agrees.seen _ (.below (agrees.hasDirectory.symm.trans inside) names)).symm

/-- The walk goes on alike. -/
theorem moves {next : Walk} (agrees : Agrees files other walk) (moves : files.Moves followLast walk next) :
    other.Moves followLast walk next := by
  -- All that a move looks at is what the two have in common.
  cases moves with
  | lostVoid void => exact .lostVoid void
  | lostUp =>
    rw [← agrees.workDir]
    exact .lostUp
  | void directory void => exact .void (agrees.hasDirectory.trans directory) void
  | up directory => exact .up (agrees.hasDirectory.trans directory)
  | down directory names short found solid =>
    obtain ⟨twin, there, plain, -⟩ := exists_solid_of_seen (agrees.seen _ (.below directory names)) found solid
    exact .down (agrees.hasDirectory.trans directory) names short there plain
  | link directory names short found followed =>
    have there := node?_of_seen (agrees.seen _ (.below directory names)) rfl found
    exact .link (agrees.hasDirectory.trans directory) names short there followed

/-- The walk halts alike. -/
theorem halts {result : Except FileFault Place} (agrees : Agrees files other walk)
    (halts : files.Halts followLast walk result) : other.Halts followLast walk result := by
  -- So is all that an end looks at.
  cases halts with
  | lost =>
    rw [← agrees.lost]
    exact .lost
  | lostName names => exact .lostName names
  | nowhere absent => exact .nowhere (absent_of_seen (agrees.seen _ .here) absent)
  | found there =>
    refine .found ?_
    rw [isSome_of_seen (agrees.seen _ .here)]
    exact there
  | blocked there plain =>
    have inside := agrees.hasDirectory.trans ((hasDirectory_of_node there).trans plain)
    have filled := isSome_of_seen (agrees.seen _ .here)
    rw [there] at filled
    obtain ⟨twin, found⟩ := Option.isSome_iff_exists.1 filled
    exact .blocked found ((hasDirectory_of_node found).symm.trans inside)
  | long directory names long => exact .long (agrees.hasDirectory.trans directory) names long
  | missing directory names short absent closed =>
    have nothing := absent_of_seen (agrees.seen _ (.below directory names)) absent
    exact .missing (agrees.hasDirectory.trans directory) names short nothing closed
  | absent directory names short absent more =>
    have nothing := absent_of_seen (agrees.seen _ (.below directory names)) absent
    exact .absent (agrees.hasDirectory.trans directory) names short nothing more
  | link directory names short found kept =>
    have there := node?_of_seen (agrees.seen _ (.below directory names)) rfl found
    exact .link (agrees.hasDirectory.trans directory) names short there kept
  | spent directory names short found followed =>
    have there := node?_of_seen (agrees.seen _ (.below directory names)) rfl found
    exact .spent (agrees.hasDirectory.trans directory) names short there followed

end Agrees

variable {walk next last : Walk}

/-- A run is one in every system of files that looks the same to each of its walks. -/
theorem Runs.congr (run : files.Runs followLast walk last)
    (agree : ∀ middle next, files.Runs followLast walk middle → files.Moves followLast middle next →
      files.Runs followLast next last → Agrees files other middle) : other.Runs followLast walk last := by
  -- Only walks that the run passes have to look the same.
  induction run using Relation.ReflTransGen.head_induction_on with
  | refl => exact .refl
  | @head walk next moves rest ih =>
    have later := ih fun middle after first again more => agree middle after (.head moves first) again more
    exact .head ((agree walk next .refl moves rest).moves moves) later

/-- A walk that keeps links at its end goes the way of one that follows them. -/
theorem Runs.follow (run : files.Runs followLast walk last) : files.Runs true walk last := by
  cases followLast with
  | true => exact run
  | false => exact Relation.ReflTransGen.mono (fun _ _ moves => moves.follow) _ _ run

/-- A walk comes by what it sees on its way. -/
def ComesBy (files : FileSystem) (walk : Walk) (place : Location) : Prop :=
  ∃ middle, files.Runs true walk middle ∧ files.Sees middle place

/-- Where a walk looks: where it is, and at the name that comes next. -/
def lookedAt : Walk → List Location
  | ⟨_, none, _⟩ => []
  | ⟨_, some here, []⟩ => [here]
  | ⟨_, some here, piece :: _⟩ => [here, here ++ [piece]]

/-- A walk looks at what it sees. -/
theorem Sees.mem_lookedAt (sees : files.Sees walk place) : place ∈ lookedAt walk := by
  cases sees with
  | @here _ _ pieces => cases pieces <;> simp [lookedAt]
  | below _ _ => simp [lookedAt]

/-- Where a walk looks on its way, if it comes to an end in so many steps. -/
def looks? (files : FileSystem) : Nat → Walk → Option (List Location)
  | 0, _ => none
  | steps + 1, walk =>
    match files.stride true walk with
    | .halt _ => some (lookedAt walk)
    | .go next => (files.looks? steps next).map (lookedAt walk ++ ·)

/-- A walk comes by nothing else. -/
theorem ComesBy.mem_looks {steps : Nat} {places : List Location} (comes : files.ComesBy walk place)
    (looked : files.looks? steps walk = some places) : place ∈ places := by
  induction steps generalizing walk places with
  | zero => cases looked
  | succ steps ih =>
    obtain ⟨middle, run, sees⟩ := comes
    rw [looks?] at looked
    rcases run.cases with rfl | ⟨next, moves, more⟩
    · split at looked
      · cases looked
        exact sees.mem_lookedAt
      · obtain ⟨rest, -, rfl⟩ := Option.map_eq_some_iff.1 looked
        exact List.mem_append_left _ sees.mem_lookedAt
    · rw [moves.stride] at looked
      obtain ⟨rest, further, rfl⟩ := Option.map_eq_some_iff.1 looked
      exact List.mem_append_right _ (ih ⟨middle, more, sees⟩ further)

/-- Whatever a walk comes by later, it comes by. -/
theorem ComesBy.of_runs (comes : files.ComesBy last place) (run : files.Runs true walk last) :
    files.ComesBy walk place := by
  obtain ⟨middle, more, sees⟩ := comes
  exact ⟨middle, run.trans more, sees⟩

/-- Pieces behind take a walk no other way in front of them. -/
theorem ComesBy.append {here : Option Location} {front : List String}
    (comes : files.ComesBy ⟨links, here, front⟩ place) (back : List String) :
    files.ComesBy ⟨links, here, front ++ back⟩ place := by
  obtain ⟨⟨fewer, there, left⟩, run, sees⟩ := comes
  refine ⟨⟨fewer, there, left ++ back⟩, run.append (.inr rfl), ?_⟩
  cases sees with
  | here => exact .here
  | below inside names => exact .below inside names

/-- A walk comes by the place to which it leads. -/
theorem Ends.comesBy (ends : files.Ends followLast walk (.ok (.found place))) : files.ComesBy walk place := by
  obtain ⟨final, run, halts⟩ := ends
  cases halts with
  | found there => exact ⟨_, run.follow, .here⟩
  | link inside names _ _ _ => exact ⟨_, run.follow, .below inside names⟩

/-- A file is at a place. -/
def HasFile (files : FileSystem) (place : Location) : Prop :=
  ∃ mode content, files.node? place = some (.file mode content)

/-- A file is no directory. -/
theorem HasFile.plain (file : files.HasFile place) : ¬files.hasDirectory place = true := by
  obtain ⟨mode, content, found⟩ := file
  rw [hasDirectory_of_node found]
  simp [Node.isDirectory]

section Filed

/-! Two systems of files that look the same to a walk, but for files in the other one. -/

variable (lost : other.lost = files.lost) (workDir : other.workDir = files.workDir)
  (same : ∀ place, files.ComesBy walk place → other.seen? place = files.seen? place ∨ other.HasFile place)

include lost workDir same

/-- The walk goes the same way in the other one, unless it is at a file that is on the way. -/
theorem Runs.of_files (run : other.Runs true walk next) :
    files.Runs true walk next ∨ ∃ place, files.ComesBy walk place ∧ next.here = some place ∧ other.HasFile place := by
  induction run with
  | refl => exact .inl .refl
  | @tail middle next _ moves ih =>
    rcases ih with before | ⟨place, -, here, file⟩
    · by_cases all : ∀ place, files.Sees middle place → other.seen? place = files.seen? place
      · exact .inl (before.tail (Agrees.moves (Agrees.symm ⟨lost, workDir, all⟩) moves))
      · simp only [not_forall] at all
        obtain ⟨place, sees, different⟩ := all
        have file := (same place ⟨middle, before, sees⟩).resolve_left different
        cases sees with
        | here => exact absurd moves.inside.1 file.plain
        | below inside names =>
          -- The next name is that of the file.
          cases moves with
          | void _ void => exact absurd void names.not_isVoid
          | up _ => exact absurd rfl names.down
          | down _ _ _ _ _ => exact .inr ⟨_, ⟨_, before, .below inside names⟩, rfl, file⟩
          | link _ _ _ found _ =>
            obtain ⟨mode, content, there⟩ := file
            rw [found] at there
            cases there
    · -- From a file, no walk goes on.
      obtain ⟨links, at_, pieces⟩ := middle
      obtain rfl : at_ = some place := here
      exact absurd moves.inside.1 file.plain

/-- The walk comes by no other places. -/
theorem ComesBy.of_files (comes : other.ComesBy walk place) : files.ComesBy walk place := by
  obtain ⟨middle, run, sees⟩ := comes
  rcases run.of_files lost workDir same with before | ⟨there, comes, here, file⟩
  · cases sees with
    | here => exact ⟨_, before, .here⟩
    | @below _ here _ _ inside names =>
      refine ⟨_, before, .below ?_ names⟩
      rcases same here ⟨_, before, .here⟩ with seen | file
      · exact (hasDirectory_of_seen seen).symm.trans inside
      · exact absurd inside file.plain
  · cases sees with
    | here =>
      obtain rfl := Option.some.inj here
      exact comes
    | below inside _ =>
      obtain rfl := Option.some.inj here
      exact absurd inside file.plain

end Filed

/-- Two systems of files look the same all along a walk. -/
structure Alike (files other : FileSystem) (walk : Walk) : Prop where
  /-- Either both have lost the directory for relative paths or none has. -/
  lost : other.lost = files.lost
  /-- Relative paths start in the same directory. -/
  workDir : other.workDir = files.workDir
  /-- The same is seen wherever the walk comes by. -/
  seen : ∀ place, files.ComesBy walk place → other.seen? place = files.seen? place

namespace Alike

/-- They look the same from every walk on the way. -/
theorem agrees (alike : Alike files other walk) (run : files.Runs true walk last) : Agrees files other last where
  lost := alike.lost
  workDir := alike.workDir
  seen place sees := alike.seen place ⟨last, run, sees⟩

/-- They look the same all along the rest of the way. -/
theorem later (alike : Alike files other walk) (run : files.Runs true walk next) : Alike files other next where
  lost := alike.lost
  workDir := alike.workDir
  seen place comes := alike.seen place (comes.of_runs run)

/-- The walk goes the same way in both. -/
theorem runs (alike : Alike files other walk) (run : files.Runs followLast walk last) :
    other.Runs followLast walk last :=
  run.congr fun _ _ before _ _ => alike.agrees before.follow

/-- It has no other way. -/
theorem runs_back (alike : Alike files other walk) (run : other.Runs true walk last) : files.Runs true walk last := by
  -- From each walk that both come to, the other one goes on as the first does.
  induction run with
  | refl => exact .refl
  | tail _ moves ih => exact ih.tail ((alike.agrees ih).symm.moves moves)

/-- None of the two is the first. -/
theorem symm (alike : Alike files other walk) : Alike other files walk where
  lost := alike.lost.symm
  workDir := alike.workDir.symm
  seen place comes := by
    obtain ⟨middle, run, sees⟩ := comes
    exact (alike.agrees (alike.runs_back run)).symm.seen place sees

/-- The walk comes to the same end in both. -/
theorem ends {result : Except FileFault Place} (alike : Alike files other walk)
    (ends : files.Ends followLast walk result) : other.Ends followLast walk result := by
  obtain ⟨last, run, halts⟩ := ends
  exact ⟨last, alike.runs run, (alike.agrees run.follow).halts halts⟩

/-- What looks the same along a whole path does so along its pieces in front. -/
theorem front {here : Option Location} {front back : List String}
    (alike : Alike files other ⟨links, here, front ++ back⟩) : Alike files other ⟨links, here, front⟩ where
  lost := alike.lost
  workDir := alike.workDir
  seen place comes := alike.seen place (comes.append back)

end Alike

/-- The walk along a path. -/
def walkOf (files : FileSystem) (path : String) : Walk :=
  ⟨mostLinks, files.start path, Path.pieces path⟩

/-- A path without a fault leads where the walk along it does. -/
theorem resolve_ends {path : String} (sound : pathFault? path = none) :
    files.Ends followLast (files.walkOf path) (files.resolve followLast path) :=
  resolvePieces_ends sound _

namespace Alike

variable {path : String}

/-- Paths start at the same place. -/
theorem start (alike : Alike files other walk) (path : String) : other.start path = files.start path := by
  rw [FileSystem.start, FileSystem.start, alike.lost, alike.workDir]

/-- The walk along a path is the same. -/
theorem walkOf (alike : Alike files other walk) (path : String) : other.walkOf path = files.walkOf path := by
  rw [FileSystem.walkOf, FileSystem.walkOf, alike.start]

/-- The path leads to the same place. -/
theorem resolve (alike : Alike files other (files.walkOf path)) :
    other.resolve followLast path = files.resolve followLast path := by
  cases fault : pathFault? path with
  | some reason => simp only [FileSystem.resolve, resolvePieces, fault]
  | none =>
    have ends : files.Ends followLast (files.walkOf path) (files.resolve followLast path) := resolve_ends fault
    have again : other.Ends followLast (other.walkOf path) (other.resolve followLast path) := resolve_ends fault
    rw [alike.walkOf] at again
    exact again.unique (alike.ends ends)

/-- At the end of the path, the same is seen. -/
theorem seen_of_resolve (alike : Alike files other (files.walkOf path))
    (leads : files.resolve followLast path = .ok (.found place)) : other.seen? place = files.seen? place := by
  cases fault : pathFault? path with
  | some reason =>
    rw [FileSystem.resolve, resolvePieces, fault] at leads
    cases leads
  | none =>
    have ends : files.Ends followLast (files.walkOf path) (files.resolve followLast path) := resolve_ends fault
    rw [leads] at ends
    exact alike.seen place ends.comesBy

end Alike

end FileSystem

end ConfigStore
