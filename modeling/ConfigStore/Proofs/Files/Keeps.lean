import ConfigStore.Proofs.Files.Canonical
import ConfigStore.Proofs.Files.Directories
import ConfigStore.Proofs.Files.Way

/-! Files that keep the directories and links of others. A walk to a directory passes nothing else, so it goes the same
way in both. Files that only grow have no new links either. -/

namespace ConfigStore.FileSystem

/-- One system of files keeps what leads on in another: its directories and its links. -/
structure Keeps (before after : FileSystem) : Prop where
  /-- Either both have lost the directory for relative paths or none has. -/
  lost : after.lost = before.lost
  /-- Relative paths start in the same directory. -/
  workDir : after.workDir = before.workDir
  /-- A directory stays one. -/
  directory : ∀ place, before.hasDirectory place = true → after.hasDirectory place = true
  /-- A link stays as it is. -/
  link : ∀ place target, before.node? place = some (.link target) → after.node? place = some (.link target)

namespace Keeps

variable {before middle after : FileSystem} {followLast : Bool}

/-- Files keep what is in them. -/
theorem refl (files : FileSystem) : files.Keeps files :=
  ⟨rfl, rfl, fun _ inside => inside, fun _ _ found => found⟩

/-- What is kept and kept again is kept. -/
theorem trans (first : before.Keeps middle) (second : middle.Keeps after) : before.Keeps after where
  lost := second.lost.trans first.lost
  workDir := second.workDir.trans first.workDir
  directory place inside := second.directory place (first.directory place inside)
  link place target found := second.link place target (first.link place target found)

/-- Paths start in the same directory. -/
theorem start (keeps : before.Keeps after) (path : String) : after.start path = before.start path := by
  rw [FileSystem.start, FileSystem.start, keeps.lost, keeps.workDir]

/-- Directories on a way stay. -/
theorem isOpen {base : Location} {names : List String} (keeps : before.Keeps after)
    (isOpen : before.Open base names) : after.Open base names where
  short := isOpen.short
  inside front within := keeps.directory _ (isOpen.inside front within)

/-- What a system of files promises is kept. -/
theorem anchored (keeps : before.Keeps after) (anchored : before.Anchored) : after.Anchored :=
  anchored.mono keeps.lost keeps.workDir keeps.directory

/-- A walk goes on alike, unless it goes to a file. -/
theorem moves {walk next : Walk} (keeps : before.Keeps after) (moves : before.Moves followLast walk next)
    (inside : ∀ place, next.here = some place → before.hasDirectory place = true) :
    after.Moves followLast walk next := by
  cases moves with
  | lostVoid void => exact .lostVoid void
  | lostUp =>
    rw [← keeps.workDir]
    exact .lostUp
  | void directory void => exact .void (keeps.directory _ directory) void
  | up directory => exact .up (keeps.directory _ directory)
  | down directory names short _ _ =>
    -- What is gone down to is a directory in both.
    obtain ⟨mode, found⟩ := hasDirectory_iff.1 (keeps.directory _ (inside _ rfl))
    exact .down (keeps.directory _ directory) names short found (by simp)
  | link directory names short found followed =>
    exact .link (keeps.directory _ directory) names short (keeps.link _ _ found) followed

/-- A walk to a directory goes the same way. -/
theorem runs {walk : Walk} {links : Nat} {place : Location} {pieces : List String} (keeps : before.Keeps after)
    (run : before.Runs followLast walk ⟨links, some place, pieces⟩) (inside : before.hasDirectory place = true) :
    after.Runs followLast walk ⟨links, some place, pieces⟩ := by
  induction run using Relation.ReflTransGen.head_induction_on with
  | refl => exact .refl
  | @head walk next first rest ih =>
    refine .head (keeps.moves first fun here there => ?_) ih
    -- A walk only goes on from a directory, and it ends at one.
    rcases Runs.cases rest with same | ⟨second, more, -⟩
    · subst same
      cases there
      exact inside
    · obtain ⟨budget, next, left⟩ := next
      cases there
      exact more.inside.1

end Keeps

/-- Files that come of others when directories and files are added: what leads on stays, and no link is new. -/
structure Grows (files after : FileSystem) : Prop where
  /-- What leads on stays. -/
  keeps : files.Keeps after
  /-- Every link was there before. -/
  links : ∀ place target, after.node? place = some (.link target) → files.node? place = some (.link target)

namespace Grows

variable {files middle after : FileSystem} {base : Location} {names : List String}

/-- Files come of themselves. -/
theorem refl (files : FileSystem) : files.Grows files :=
  ⟨.refl files, fun _ _ found => found⟩

/-- What comes of what came of files comes of them. -/
theorem trans (first : files.Grows middle) (second : middle.Grows after) : files.Grows after where
  keeps := first.keeps.trans second.keeps
  links place target found := first.links place target (second.links place target found)

/-- A way without links stays without. -/
theorem unlinked (grows : files.Grows after) (unlinked : files.Unlinked base names) : after.Unlinked base names :=
  fun front within target found => unlinked front within target (grows.links _ _ found)

end Grows

end ConfigStore.FileSystem
