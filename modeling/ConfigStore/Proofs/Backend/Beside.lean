import ConfigStore.Proofs.Backend.Tended

/-! Files in which one domain is alone, and files in which a neighbour is beside it. If neither gets in the way of the other,
they look the same on the way to the settings of the domain once it is opened, and writing these comes to the same. -/

namespace ConfigStore

open FileSystem

variable {files after alone shared : FileSystem} {home domain neighbour target name : String}
  {place directory : Location} {written : Prop}

namespace Tended

/-- Writing the settings of a domain fails and changes nothing, or it puts a file where it would have been put at first. -/
theorem replaceFile_cases (site : Site files home domain) (tended : Tended files home domain written after)
    (sound : pathFault? (Path.join home domain) = none) (whole : Whole files home domain after)
    (content : List UInt8) (drawn : TemporaryName) :
    (∃ error, replaceFile after (settingsPath home domain) content { temporary := drawn } = (.error error, after)) ∨
      ∃ target directory name, after.Replaceable (settingsPath home domain) target directory name ∧
        files.Replaces home domain (directory ++ [name]) ∧
        after.Carries (after.put (directory ++ [name]) (.file (takenMode after target) content)) ∧
        replaceFile after (settingsPath home domain) content { temporary := drawn } =
          (.ok target, after.put (directory ++ [name]) (.file (takenMode after target) content)) := by
  -- No trouble is met, so that whatever was done took all that it takes to replace a file.
  have later := site.later tended.carries
  rcases ConfigStore.replaceFile_cases after (settingsPath home domain) content { temporary := drawn } with
    failed | ⟨target, _, _, written, -, -, -, done⟩
  · exact .inl failed
  · obtain ⟨directory, name, takes, rfl⟩ := exists_replaceable later.anchored done
    exact .inr ⟨target, directory, name, takes, tended.replaces site sound whole takes,
      carries_of_replaceFile later.anchored later.isAbsolute_settingsPath done, done⟩

/-- A domain whose settings are a file was opened. -/
theorem whole_of_stat (site : Site files home domain) (tended : Tended files home domain written after)
    (allowed : written → files.Granted home domain) {mode : Nat} {content : List UInt8}
    (leads : after.stat (settingsPath home domain) = .ok (.file mode content)) :
    files.Granted home domain ∧ Whole files home domain after := by
  -- The walk to a file comes by its directory, and where that is there, opening the domain comes to nothing new.
  have plain := Path.isAbsolute_of_not_mem configFileName_names.2
  have filled := site.relative.2.2
  rcases stat_eq_ok_iff.1 leads with ⟨_, -, other⟩ | ⟨place, leads, -⟩
  · cases other
  · have ends := ends_of_resolve leads
    obtain ⟨front, whole, -⟩ := Path.pieces_join (Path.join home domain) plain
    rw [walkOf, settingsPath, whole, Path.pieces_of_not_mem configFileName_names.2] at ends
    obtain ⟨links, directory, run, inside⟩ := ends.runs_above configFileName_names.1
    have sound := pathFault?_of_join plain filled (pathFault?_of_resolve leads)
    have same := ensureDirectories_of_ahead plain filled sound whole run inside
    have opens := tended.opens site allowed
    have there : after.opened home domain = after := congrArg Prod.snd same
    exact ⟨opens.granted.1 (congrArg Prod.fst same), there ▸ opens.whole⟩

end Tended

namespace Site

/-- Where a directory is made for a domain, it has no settings yet. -/
theorem not_stat_of_made (site : Site files home domain) (granted : files.Granted home domain)
    (made : files.Made home domain place) (node : Node) :
    (files.opened home domain).stat (settingsPath home domain) ≠ .ok node := by
  intro leads
  rcases site.cases with ⟨result, same, -⟩ | ⟨directory, name, behind, below, names, absent⟩
  · have unchanged : files.opened home domain = files := congrArg Prod.snd same
    exact not_made unchanged place made
  · -- They would be below what was missing.
    have ensured := ensureDirectories_ensured below
    have isOpen := ensured.isOpen granted
    have plain := Path.isAbsolute_of_not_mem configFileName_names.2
    have own := Path.pieces_of_not_mem configFileName_names.2
    obtain ⟨more, same, based⟩ := (below.grows ensured.grows).based.join plain (by rw [own]; decide)
    rw [own] at based
    have entry : (files.opened home domain).Entry (settingsPath home domain) (directory ++ Path.namesOf more)
        configFileName := based.entry configFileName_names.1 (by decide) (same.symm ▸ isOpen)
    have nothing : (files.opened home domain).node? (directory ++ Path.namesOf more ++ [configFileName]) = none := by
      rw [same, List.append_assoc, opened, ensured.node?_apart not_concat_prefix]
      rw [Path.namesOf_cons_name names, List.cons_append, List.append_cons]
      exact node?_below absent _
    have sound : pathFault? (settingsPath home domain) = none := by
      rcases stat_eq_ok_iff.1 leads with ⟨_, leads, -⟩ | ⟨_, leads, -⟩
      · exact pathFault?_of_resolve leads
      · exact pathFault?_of_resolve leads
    have missing := entry.stat sound fun target found => (by rw [nothing] at found; cases found)
    rw [nothing, leads] at missing
    cases missing

end Site

/-- Two domains below one home that do not get in each other's way. -/
structure Neighbours (files : FileSystem) (home domain neighbour : String) : Prop where
  /-- The one can be opened as far as the files allow. -/
  mine : Site files home domain
  /-- So can the other. -/
  theirs : Site files home neighbour
  /-- The neighbour stays off the way to the settings of the domain. -/
  ahead : files.StaysOff home neighbour domain
  /-- The domain stays off the way to those of the neighbour. -/
  behind : files.StaysOff home domain neighbour

/-- Files in which a domain is alone, and files in which its neighbour is there as well, since both were the same. -/
structure Twins (files : FileSystem) (home domain neighbour : String) (alone shared : FileSystem) : Prop where
  /-- Where the domain is alone, nobody else does something on its way. -/
  own : Tended files home domain (files.Granted home domain) alone
  /-- Nor does the neighbour. Nothing is written before the domain is opened. -/
  mine : Tended files home domain (files.Granted home domain ∧ Whole files home domain alone) shared
  /-- The domain does nothing on the way of the neighbour. -/
  theirs : Tended files home neighbour (files.Granted home neighbour) shared
  /-- On the way of the domain, both are the same, but for directories that are made for the neighbour before. -/
  seen : ∀ place, files.OnWay home domain place → shared.seen? place = alone.seen? place ∨
    (files.Made home domain place ∧ alone.node? place = none ∧ shared.hasDirectory place = true)
  /-- What is made for the domain is there in both. -/
  directory : ∀ place, files.Made home domain place → alone.hasDirectory place = true → shared.hasDirectory place = true

/-- What is replaced when the neighbour's settings are written is not on the way of the domain. -/
theorem FileSystem.StaysOff.ne {other : String} (off : files.StaysOff home other domain) (onWay : files.OnWay home domain place)
    {replaced : Location} (replaces : files.Replaces home other replaced) : place ≠ replaced := by
  -- The place is determined by the path, and it is that from which the other one stays off.
  obtain ⟨target, directory, name, takes, rfl⟩ := replaces
  rintro rfl
  exact (off _ onWay).2 takes.replacedPlace?

namespace Twins

/-- At first, both are the same. -/
theorem refl (neighbours : Neighbours files home domain neighbour) : Twins files home domain neighbour files files where
  own := .refl neighbours.mine _
  mine := .refl neighbours.mine _
  theirs := .refl neighbours.theirs _
  seen _ _ := .inl rfl
  directory _ _ inside := inside

section Opening

variable (neighbours : Neighbours files home domain neighbour) (twins : Twins files home domain neighbour alone shared)

include neighbours twins

/-- Opening the domain comes to the same in both, and they stay so. -/
theorem openDomain : Opens files home domain alone ∧ Opens files home domain shared ∧
    Twins files home domain neighbour (alone.opened home domain) (shared.opened home domain) := by
  -- Both make what was to be made at first, each as far as it is still missing.
  have opens := twins.own.opens neighbours.mine id
  have again := twins.mine.opens neighbours.mine And.left
  have carries := opens.extended.grows.keeps.carries
  have carries' := again.extended.grows.keeps.carries
  refine ⟨opens, again, ?_, ?_, ?_, fun place onWay => ?_, fun place made _ => again.whole place made⟩
  · exact twins.own.step carries fun place _ => (opens.own place).imp_right fun made => ⟨made, opens.whole place made⟩
  · refine (twins.mine.step carries' fun place _ => ?_).mono (And.imp_right fun _ => opens.whole)
    exact (again.own place).imp_right fun made => ⟨made, again.whole place made⟩
  · refine twins.theirs.step carries' fun place onWay => (again.own place).imp_right fun made => ?_
    exact ⟨neighbours.theirs.made_of_other neighbours.mine neighbours.behind onWay made, again.whole place made⟩
  · by_cases made : files.Made home domain place
    · exact .inl (seen?_of_directories (opens.whole place made) (again.whole place made))
    · have same := (opens.own place).resolve_right made
      have same' := (again.own place).resolve_right made
      rw [seen?_congr same, seen?_congr same', same, hasDirectory, same']
      exact twins.seen place onWay

/-- When the neighbour is opened, they stay so. -/
theorem openNeighbour : Opens files home neighbour shared ∧
    Twins files home domain neighbour alone (shared.opened home neighbour) := by
  have opens := twins.theirs.opens neighbours.theirs id
  have carries := opens.extended.grows.keeps.carries
  -- What the neighbour makes on the way of the domain is made for the domain as well.
  have made : ∀ place, files.OnWay home domain place → (shared.opened home neighbour).node? place = shared.node? place ∨
      (files.Made home domain place ∧ (shared.opened home neighbour).hasDirectory place = true) := by
    intro place onWay
    refine (opens.own place).imp_right fun made => ⟨?_, opens.whole place made⟩
    exact neighbours.mine.made_of_other neighbours.theirs neighbours.ahead onWay made
  refine ⟨opens, twins.own, twins.mine.step carries made, ?_, fun place onWay => ?_, fun place own inside => ?_⟩
  · exact twins.theirs.step carries fun place _ => (opens.own place).imp_right fun made => ⟨made, opens.whole place made⟩
  · rcases made place onWay with same | ⟨made, inside⟩
    · rw [seen?_congr same, hasDirectory, same]
      exact twins.seen place onWay
    · rcases twins.own.directory_of_made onWay made with missing | there
      · exact .inr ⟨made, missing, inside⟩
      · exact .inl (seen?_of_directories there inside)
  · exact carries.directory place (twins.directory place own inside)

end Opening

section Writing

/-- Once the domain is opened, both look the same on its way. -/
theorem seen_of_whole (twins : Twins files home domain neighbour alone shared) (whole : Whole files home domain alone)
    (onWay : files.OnWay home domain place) : shared.seen? place = alone.seen? place := by
  refine (twins.seen place onWay).resolve_right ?_
  rintro ⟨made, missing, -⟩
  have inside := whole place made
  rw [hasDirectory_of_absent missing] at inside
  cases inside

variable (neighbours : Neighbours files home domain neighbour) (twins : Twins files home domain neighbour alone shared)

include neighbours twins

/-- Once the domain is opened, both look the same all along the way to its settings. -/
theorem alike (sound : pathFault? (Path.join home domain) = none) (whole : Whole files home domain alone) :
    Alike alone shared (alone.walkOf (settingsPath home domain)) where
  lost := twins.mine.carries.lost.trans twins.own.carries.lost.symm
  workDir := twins.mine.carries.workDir.trans twins.own.carries.workDir.symm
  seen _ comes := twins.seen_of_whole whole (twins.own.onWay_of_comesBy neighbours.mine sound whole comes)

/-- When a file is put in both where the settings are written, they stay so. -/
theorem put (granted : files.Granted home domain) (whole : Whole files home domain alone) {mode : Nat}
    {content : List UInt8} (replaced : files.Replaces home domain (directory ++ [name]))
    (inside : alone.hasDirectory directory = true) (inside' : shared.hasDirectory directory = true)
    (carries : alone.Carries (alone.put (directory ++ [name]) (.file mode content)))
    (carries' : shared.Carries (shared.put (directory ++ [name]) (.file mode content))) :
    Twins files home domain neighbour (alone.put (directory ++ [name]) (.file mode content))
      (shared.put (directory ++ [name]) (.file mode content)) where
  own := twins.own.write carries inside granted replaced
  mine := (twins.mine.write carries' inside' ⟨granted, whole⟩ replaced).mono
    (And.imp_right fun whole place made => carries.directory place (whole place made))
  theirs := twins.theirs.step carries' fun _ onWay =>
    .inl (node?_put_other (isSome_of_hasDirectory inside') (neighbours.behind.ne onWay replaced))
  seen place onWay := by
    refine .inl ?_
    by_cases own : place = directory ++ [name]
    · subst own
      rw [seen?, seen?, node?_put_self, node?_put_self]
    · have same : (alone.put (directory ++ [name]) (.file mode content)).node? place = alone.node? place :=
        node?_put_other (isSome_of_hasDirectory inside) own
      have same' : (shared.put (directory ++ [name]) (.file mode content)).node? place = shared.node? place :=
        node?_put_other (isSome_of_hasDirectory inside') own
      rw [seen?_congr same, seen?_congr same']
      exact twins.seen_of_whole whole onWay
  directory place made _ := carries'.directory place (twins.directory place made (whole place made))

/-- When the settings of the domain are written, that is done in both or in none, and they stay so, unless a temporary name
is taken. -/
theorem write (granted : files.Granted home domain) (whole : Whole files home domain alone) (content : List UInt8)
    (drawn drawn' : TemporaryName) :
    (∃ directory, (replaceFile alone (settingsPath home domain) content { temporary := drawn }).1 =
        .error (.file directory .exists)) ∨
      (∃ directory, (replaceFile shared (settingsPath home domain) content { temporary := drawn' }).1 =
        .error (.file directory .exists)) ∨
      ((∃ target, (replaceFile shared (settingsPath home domain) content { temporary := drawn' }).1 = .ok target) ↔
        ∃ target, (replaceFile alone (settingsPath home domain) content { temporary := drawn }).1 = .ok target) ∧
      alone.Carries (replaceFile alone (settingsPath home domain) content { temporary := drawn }).2 ∧
      shared.Carries (replaceFile shared (settingsPath home domain) content { temporary := drawn' }).2 ∧
      Twins files home domain neighbour (replaceFile alone (settingsPath home domain) content { temporary := drawn }).2
        (replaceFile shared (settingsPath home domain) content { temporary := drawn' }).2 := by
  have sound := neighbours.mine.sound granted
  have alike := twins.alike neighbours sound whole
  have first := neighbours.mine.later twins.own.carries
  have second := neighbours.mine.later twins.mine.carries
  -- What it takes to replace the file is the same in both, but for the name of the temporary file.
  by_cases able : ∃ target directory name, alone.Replaceable (settingsPath home domain) target directory name
  · obtain ⟨target, directory, name, takes⟩ := able
    obtain ⟨takes', mode⟩ := takes.congr alike first.anchored second.anchored first.isAbsolute_settingsPath
    have done := takes.replaceFile first.anchored content drawn
    have done' := takes'.replaceFile second.anchored content drawn'
    cases free : alone.node? (directory ++ [drawn.text]) with
    | some node =>
      rw [free] at done
      exact .inl ⟨_, congrArg Prod.fst done⟩
    | none =>
      cases free' : shared.node? (directory ++ [drawn'.text]) with
      | some node =>
        rw [free'] at done'
        exact .inr (.inl ⟨_, congrArg Prod.fst done'⟩)
      | none =>
        simp only [free] at done
        simp only [free', mode] at done'
        have carries := carries_of_replaceFile first.anchored first.isAbsolute_settingsPath done
        have carries' := carries_of_replaceFile second.anchored second.isAbsolute_settingsPath done'
        rw [done, done']
        refine .inr (.inr ⟨Iff.rfl, carries, carries', ?_⟩)
        exact twins.put neighbours granted whole (twins.own.replaces neighbours.mine sound whole takes) takes.entry.inside
          takes'.entry.inside carries carries'
  · -- What cannot be replaced in one cannot be replaced in the other.
    have whole' : Whole files home domain shared := fun place made => twins.directory place made (whole place made)
    have back := alike.symm
    rw [← alike.walkOf] at back
    rcases twins.own.replaceFile_cases neighbours.mine sound whole content drawn with
      ⟨error, failed⟩ | ⟨target, directory, name, takes, -⟩
    · rcases twins.mine.replaceFile_cases neighbours.mine sound whole' content drawn' with
        ⟨error', failed'⟩ | ⟨target, directory, name, takes, -⟩
      · rw [failed, failed']
        exact .inr (.inr ⟨by simp, .refl _, .refl _, twins⟩)
      · obtain ⟨takes, -⟩ := takes.congr back second.anchored first.anchored second.isAbsolute_settingsPath
        exact absurd ⟨target, directory, name, takes⟩ able
    · exact absurd ⟨target, directory, name, takes⟩ able

/-- When the settings of the neighbour are written, they stay so. -/
theorem writeNeighbour (whole : Whole files home neighbour shared) (granted : files.Granted home neighbour)
    (content : List UInt8) (drawn : TemporaryName) :
    shared.Carries (replaceFile shared (settingsPath home neighbour) content { temporary := drawn }).2 ∧
      Twins files home domain neighbour alone
        (replaceFile shared (settingsPath home neighbour) content { temporary := drawn }).2 := by
  rcases twins.theirs.replaceFile_cases neighbours.theirs (neighbours.theirs.sound granted) whole content drawn with
    ⟨error, failed⟩ | ⟨target, directory, name, takes, replaced, carries, done⟩
  · rw [failed]
    exact ⟨.refl _, twins⟩
  · rw [done]
    have kept : ∀ place, files.OnWay home domain place →
        (shared.put (directory ++ [name]) (.file (takenMode shared target) content)).node? place = shared.node? place :=
      fun place onWay => node?_put_other (isSome_of_hasDirectory takes.entry.inside) (neighbours.ahead.ne onWay replaced)
    refine ⟨carries, twins.own, twins.mine.step carries fun place onWay => .inl (kept place onWay),
      twins.theirs.write carries takes.entry.inside granted replaced, fun place onWay => ?_, fun place made inside => ?_⟩
    · simp only [seen?_congr (kept place onWay), hasDirectory, kept place onWay]
      exact twins.seen place onWay
    · exact carries.directory place (twins.directory place made inside)

/-- The settings of the domain are the same file in both, if they are one. -/
theorem stat_file_iff (mode : Nat) (content : List UInt8) :
    shared.stat (settingsPath home domain) = .ok (.file mode content) ↔
      alone.stat (settingsPath home domain) = .ok (.file mode content) := by
  constructor
  · intro leads
    obtain ⟨granted, there⟩ := twins.mine.whole_of_stat neighbours.mine And.left leads
    have sound := neighbours.mine.sound granted
    by_cases whole : Whole files home domain alone
    · exact ((twins.alike neighbours sound whole).stat_file_iff mode content).1 leads
    · -- The domain is not opened where it is alone, so that nothing is written, and nothing was there before.
      have alike := twins.mine.alike neighbours.mine sound there fun done => absurd done.2 whole
      have first := (alike.stat_file_iff mode content).1 leads
      refine absurd (fun place made => ?_) whole
      exact absurd first (neighbours.mine.not_stat_of_made granted made _)
  · intro leads
    obtain ⟨granted, whole⟩ := twins.own.whole_of_stat neighbours.mine id leads
    exact ((twins.alike neighbours (neighbours.mine.sound granted) whole).stat_file_iff mode content).2 leads

end Writing

end Twins

end ConfigStore
