import ConfigStore.Proofs.Files.Keeps
import ConfigStore.Proofs.Files.Permissions

/-! What leads to a directory still leads there when files are written and directories are created. A link that is replaced
by a file led to nothing. -/

namespace ConfigStore.FileSystem

/-- Whatever leads to a directory in one system of files leads there in another. -/
structure Carries (before after : FileSystem) : Prop where
  /-- Either both have lost the directory for relative paths or none has. -/
  lost : after.lost = before.lost
  /-- Relative paths start in the same directory. -/
  workDir : after.workDir = before.workDir
  /-- A directory stays one. -/
  directory : ∀ place, before.hasDirectory place = true → after.hasDirectory place = true
  /-- A walk to a directory goes the same way. -/
  runs : ∀ walk links place, before.Runs true walk ⟨links, some place, []⟩ → before.hasDirectory place = true →
    after.Runs true walk ⟨links, some place, []⟩

namespace Carries

variable {before middle after : FileSystem}

/-- Whatever leads somewhere leads there. -/
theorem refl (files : FileSystem) : files.Carries files :=
  ⟨rfl, rfl, fun _ inside => inside, fun _ _ _ run _ => run⟩

/-- What leads to a directory in one after the other does so from the first to the last. -/
theorem trans (first : before.Carries middle) (second : middle.Carries after) : before.Carries after where
  lost := second.lost.trans first.lost
  workDir := second.workDir.trans first.workDir
  directory place inside := second.directory place (first.directory place inside)
  runs walk links place run inside :=
    second.runs walk links place (first.runs walk links place run inside) (first.directory place inside)

/-- Paths start in the same directory. -/
theorem start (carries : before.Carries after) (path : String) : after.start path = before.start path := by
  rw [FileSystem.start, FileSystem.start, carries.lost, carries.workDir]

/-- What a system of files promises is kept. -/
theorem anchored (carries : before.Carries after) (anchored : before.Anchored) : after.Anchored :=
  anchored.mono carries.lost carries.workDir carries.directory

end Carries

/-- Where directories and links stay, whatever leads to a directory does. -/
theorem Keeps.carries {before after : FileSystem} (keeps : before.Keeps after) : before.Carries after :=
  ⟨keeps.lost, keeps.workDir, keeps.directory, fun _ _ _ run inside => keeps.runs run inside⟩

variable {files after : FileSystem} {directory place : Location} {name aim : String} {links fewer budget : Nat}

/-- A link at which a walk comes to nothing leads to no directory, whatever comes behind it. -/
theorem Lacking.not_runs {result : Except FileFault Place} {rest : List String} (lacking : Lacking result)
    (inside : files.hasDirectory directory = true) (names : Path.Names name) (short : name.utf8ByteSize ≤ mostNameBytes)
    (found : files.node? (directory ++ [name]) = some (.link aim))
    (ends : files.Ends true ⟨budget, some directory, [name]⟩ result) (there : files.hasDirectory place = true) :
    ¬files.Runs true ⟨fewer, some (linkBase directory aim), Path.pieces aim ++ rest⟩ ⟨links, some place, []⟩ := by
  intro run
  -- The walk along the target comes first, and it would end at a directory.
  obtain ⟨left, at_, first, second⟩ := run.split (Nat.zero_le _)
  obtain ⟨middle, rfl⟩ := first.inside rfl
  -- Behind the target, the walk is at the directory, or goes on from one.
  have through : files.hasDirectory middle = true := by
    rcases second.cases with same | ⟨_, more, _⟩
    · cases same
      exact there
    · exact more.inside.1
  have enough : result ≠ .error .tooManyLinks := by
    rcases lacking with rfl | ⟨_, _, rfl⟩ <;> simp
  have elsewhere : ∀ place, result ≠ .ok (.found place) := by
    rcases lacking with rfl | ⟨_, _, rfl⟩ <;> simp
  rcases link_ends inside names short found budget with ⟨less, rfl, follows⟩ | tooMany
  · rcases first.afford less with ⟨spare, -, again⟩ | tooMany
    · have ended : files.Ends true ⟨spare, some middle, []⟩ (.ok (.found middle)) :=
        .found (isSome_of_hasDirectory through)
      obtain ⟨final, more, halts⟩ := ended
      exact elsewhere middle (ends.unique ⟨final, .head follows (again.trans more), halts⟩)
    · exact enough (ends.unique (.later follows tooMany))
  · exact enough (ends.unique tooMany)

/-- A link by the name that is replaced leads to nothing. -/
theorem lacking_of_link {path target : String} {troubles : Troubles} (anchored : files.Anchored)
    (reachable : Path.isAbsolute path = true ∨ files.lost = none)
    (replaced : replacedPath files path troubles = .ok target) (sound : pathFault? target = none)
    (entry : files.Entry target directory name) (found : files.node? (directory ++ [name]) = some (.link aim)) :
    ∃ result budget, Lacking result ∧ files.Ends true ⟨budget, some directory, [name]⟩ result := by
  have plain : files.hasDirectory (directory ++ [name]) = false := hasDirectory_of_node found
  rcases replacedPath_cases replaced with resolved | ⟨missing, -⟩
  · -- The path without links is that of a file.
    obtain ⟨-, -, mode, content, node⟩ := runs_of_canonical anchored resolved entry plain
    rw [found] at node
    cases node
  · obtain ⟨result, lacking, ends⟩ := lacking_of_replacedPath anchored reachable replaced missing sound
    obtain ⟨budget, run⟩ := runs_of_replacedPath anchored ends (.of_lacking lacking) replaced entry plain
    exact ⟨result, budget, lacking, ends.of_runs run⟩

/-- What leads to a directory still does when a file is replaced. -/
theorem carries_of_replaceFile {path target : String} {content : List UInt8} {conditions : Conditions}
    (anchored : files.Anchored) (reachable : Path.isAbsolute path = true ∨ files.lost = none)
    (done : replaceFile files path content conditions = (.ok target, after)) : files.Carries after := by
  obtain ⟨replaced, sound, directory, name, entry, plain, rfl⟩ := replaceFile_spec done
  have somewhere := isSome_of_hasDirectory entry.inside
  have other : ∀ place, files.hasDirectory place = true → place ≠ directory ++ [name] := by
    rintro place inside rfl
    rw [plain] at inside
    cases inside
  -- A walk to a directory may come by the replaced name only as a link, and that led to nothing.
  refine ⟨rfl, rfl, fun place inside => ?_, fun walk links place run inside => ?_⟩
  · rw [hasDirectory, node?_put_other somewhere (other place inside)]
    exact inside
  · refine run.congr fun middle next before moves behind => ⟨rfl, rfl, fun seen sees => ?_⟩
    refine seen?_congr (node?_put_other somewhere ?_)
    rintro rfl
    generalize here : directory ++ [name] = seen at sees
    cases sees with
    | here => exact other _ moves.inside.1 here.symm
    | below inside' names =>
      obtain ⟨rfl, rfl⟩ := List.append_singleton_inj.1 here
      cases moves with
      | void _ void => exact names.not_isVoid void
      | up _ => exact names.down rfl
      | down _ _ _ _ _ =>
        -- The walk would end by the name, or go on from there.
        rcases behind.cases with ended | ⟨second, more, -⟩
        · cases ended
          exact other _ inside rfl
        · exact other _ more.inside.1 rfl
      | link _ _ short found _ =>
        obtain ⟨result, budget, lacking, ends⟩ := lacking_of_link anchored reachable replaced sound entry found
        exact lacking.not_runs entry.inside names short found ends inside behind

end ConfigStore.FileSystem
