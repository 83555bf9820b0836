import ConfigStore.Proofs.Files.Ensured

/-! Files that come of others when directories are created. What leads on stays, no link is new, and what is free is as free
as it was. -/

namespace ConfigStore.FileSystem

variable {files : FileSystem} {base directory : Location} {names : List String} {name : String} {pointed : Prop}
  {answer : Except FileFault Unit × FileSystem}

/-- Files with more directories, and nothing else. -/
structure Extends (files after : FileSystem) : Prop where
  /-- Either both have lost the directory for relative paths or none has. -/
  lost : after.lost = files.lost
  /-- Relative paths start in the same directory. -/
  workDir : after.workDir = files.workDir
  /-- The same is at each place, or there is a directory where nothing was. -/
  node : ∀ place, after.node? place = files.node? place ∨
    (files.node? place = none ∧ after.hasDirectory place = true)

/-- Creating directories adds nothing else. -/
theorem Ensured.extends (ensured : Ensured files base names pointed answer) : files.Extends answer.2 where
  lost := ensured.lost
  workDir := ensured.workDir
  node place := by
    refine (ensured.node place).imp_right ?_
    rintro ⟨absent, inside, -⟩
    exact ⟨absent, inside⟩

namespace Extends

variable {after : FileSystem}

/-- Files are themselves with no more directories. -/
theorem refl (files : FileSystem) : files.Extends files :=
  ⟨rfl, rfl, fun _ => .inl rfl⟩

/-- Directories and links stay, and no link is new. -/
theorem grows (extended : files.Extends after) : files.Grows after where
  keeps := {
    lost := extended.lost
    workDir := extended.workDir
    directory := by
      intro place inside
      rcases extended.node place with same | ⟨-, there⟩
      · rw [hasDirectory, same]
        exact inside
      · exact there
    link := by
      intro place target found
      rcases extended.node place with same | ⟨absent, -⟩
      · rw [same]
        exact found
      · rw [absent] at found
        cases found }
  links place target found := by
    rcases extended.node place with same | ⟨-, inside⟩
    · exact same.symm.trans found
    · exact absurd found (not_link_of_hasDirectory inside)

/-- What is free is so with more directories and without. -/
theorem free_iff (extended : files.Extends after) (other : Location) (more : List String) :
    after.Free other more ↔ files.Free other more := by
  have solid : ∀ place, (after.node? place = none ∨ after.hasDirectory place = true) ↔
      (files.node? place = none ∨ files.hasDirectory place = true) := by
    intro place
    rcases extended.node place with same | ⟨absent, inside⟩
    · rw [hasDirectory, hasDirectory, same]
    · exact ⟨fun _ => .inl absent, fun _ => .inr inside⟩
  constructor
  · exact fun free => ⟨free.short, fun front within => (solid _).1 (free.solid front within)⟩
  · exact fun free => ⟨free.short, fun front within => (solid _).2 (free.solid front within)⟩

end Extends

end ConfigStore.FileSystem
