import ConfigStore.Proofs.Backend.Apart

/-! Files in which nobody but a domain has done something on its way. In them, the domain is opened and its settings are
replaced as they were in the files that were there at first. -/

namespace ConfigStore

open FileSystem
open Path (namesOf)

variable {files after : FileSystem} {home domain target name next : String} {place directory : Location} {written : Prop}

/-- What is replaced when the settings of a domain are written, once the domain is opened. -/
def FileSystem.Replaces (files : FileSystem) (home domain : String) (place : Location) : Prop :=
  ∃ target directory name, (files.opened home domain).Replaceable (settingsPath home domain) target directory name ∧
    place = directory ++ [name]

/-- Files in which nobody but a domain has done something on its way since other files were there. It may have been opened,
and its settings may have been written. -/
structure Tended (files : FileSystem) (home domain : String) (written : Prop) (after : FileSystem) : Prop where
  /-- Whatever led to a directory still does. -/
  carries : files.Carries after
  /-- On the way, the files are as they are when the domain is opened, but for directories that are still missing and the
  settings. -/
  seen : ∀ place, files.OnWay home domain place → after.seen? place = (files.opened home domain).seen? place ∨
    (files.Made home domain place ∧ after.node? place = none) ∨
      (written ∧ files.Replaces home domain place ∧ after.HasFile place)

/-- All directories are there that are made when a domain is opened. -/
def Whole (files : FileSystem) (home domain : String) (after : FileSystem) : Prop :=
  ∀ place, files.Made home domain place → after.hasDirectory place = true

/-- What comes of opening a domain in files in which nobody else has done something on its way. -/
structure Opens (files : FileSystem) (home domain : String) (after : FileSystem) : Prop where
  /-- It is done if it would have been done at first. -/
  granted : after.Granted home domain ↔ files.Granted home domain
  /-- More directories are there. -/
  extended : after.Extends (after.opened home domain)
  /-- They are among those that would have been made at first. -/
  own : ∀ place, (after.opened home domain).node? place = after.node? place ∨ files.Made home domain place
  /-- All of these are there. -/
  whole : Whole files home domain (after.opened home domain)

/-- Where nothing is made for a domain, it is opened without a change. -/
theorem Opens.of_same {result : Except FileFault Unit} (never : ∀ place, ¬files.Made home domain place)
    (same : after.ensureDirectories (Path.join home domain) = (result, after))
    (granted : result = .ok () ↔ files.Granted home domain) : Opens files home domain after where
  granted := by rw [Granted, same]; exact granted
  extended := by rw [opened, same]; exact .refl after
  own place := by rw [opened, same]; exact .inl rfl
  whole place made := absurd made (never place)

/-- Nothing is made if the files stay as they are. -/
theorem not_made (same : files.opened home domain = files) (place : Location) : ¬files.Made home domain place := by
  rintro ⟨absent, inside⟩
  rw [same, hasDirectory_of_absent absent] at inside
  cases inside

namespace Tended

section Making

/-! The directory of a domain is below another one, in which its next name is missing at first. -/

variable {behind : List String} {front : List String}

/-- What is on the way of a directory that is missing is on the way of the settings behind it. -/
theorem onWay (below : files.Below (Path.join home domain) directory (name :: behind))
    (within : front ++ [next] <+: namesOf (name :: behind))
    (reaches : files.Reaches directory (namesOf (name :: behind)) (Pointed (Path.join home domain)) front) :
    files.OnWay home domain (directory ++ (front ++ [next])) := by
  have ensured := ensureDirectories_ensured below
  have plain := Path.isAbsolute_of_not_mem configFileName_names.2
  obtain ⟨more, same, based⟩ := (below.grows ensured.grows).based.join plain (by
    rw [Path.pieces_of_not_mem configFileName_names.2]
    decide)
  refine ⟨below.sound, based.comesBy (ensured.isOpen_front reaches) ?_⟩
  rw [Path.namesOf_append, same]
  exact within.trans (List.prefix_append ..)

/-- Nothing is behind what is missing. -/
theorem absent_within (absent : files.node? (directory ++ [name]) = none) (names : Path.Names name)
    (within : front <+: namesOf (name :: behind)) (filled : front ≠ []) : files.node? (directory ++ front) = none := by
  rw [Path.namesOf_cons_name names] at within
  rcases List.prefix_cons_iff.1 within with rfl | ⟨more, rfl, -⟩
  · exact absurd rfl filled
  · rw [List.append_cons]
    exact node?_below absent more

variable (tended : Tended files home domain written after) (allowed : written → files.Granted home domain)
  (below : files.Below (Path.join home domain) directory (name :: behind)) (names : Path.Names name)
  (absent : files.node? (directory ++ [name]) = none)

include tended allowed below names absent

/-- Nothing but directories is on the way of a directory that is missing at first, and nothing where none is made. -/
theorem clear (within : front <+: namesOf (name :: behind)) :
    (after.node? (directory ++ front) = none ∨ after.hasDirectory (directory ++ front) = true) ∧
      (¬files.Reaches directory (namesOf (name :: behind)) (Pointed (Path.join home domain)) front →
        after.node? (directory ++ front) = none) := by
  have ensured := ensureDirectories_ensured below
  -- By induction on the names, since what is below a missing directory is missing as well.
  induction front using List.reverseRecOn with
  | nil =>
    have inside := tended.carries.directory _ below.inside
    rw [List.append_nil]
    refine ⟨.inr inside, fun never => absurd ⟨List.nil_prefix, (open_nil below.inside).free, fun bare => ?_⟩ never⟩
    rw [Path.namesOf_cons_name names] at bare
    cases bare
  | append_singleton front next ih =>
    by_cases reaches : files.Reaches directory (namesOf (name :: behind)) (Pointed (Path.join home domain)) front
    · rcases tended.seen _ (onWay below within reaches) with same | ⟨-, missing⟩ | ⟨done, ⟨_, _, _, takes, there⟩, -⟩
      · -- It is as it is when the domain is opened.
        rcases ensured.node (directory ++ (front ++ [next])) with kept | ⟨-, inside, other, reached, there⟩
        · have missing := absent_of_seen same (kept.trans (absent_within absent names within (by simp)))
          exact ⟨.inl missing, fun _ => missing⟩
        · obtain rfl := List.append_cancel_left there
          exact ⟨.inr ((hasDirectory_of_seen same).trans inside), fun never => absurd reached never⟩
      · exact ⟨.inl missing, fun _ => missing⟩
      · -- No settings are where a directory is made.
        have inside := (ensured.isOpen (allowed done)).inside _ within
        have plain := takes.plain
        rw [← there] at plain
        exact absurd (plain.symm.trans inside) (by decide)
    · have missing := (ih ((List.prefix_append ..).trans within)).2 reaches
      have beyond := node?_below missing [next]
      rw [List.append_assoc] at beyond
      exact ⟨.inl beyond, fun _ => beyond⟩

/-- The path of the directory leads below the same one. -/
theorem stays_below : after.Below (Path.join home domain) directory (name :: behind) := by
  obtain ⟨front, links, whole, run⟩ := below.run
  refine ⟨below.sound, tended.carries.directory _ below.inside, below.level, fun inner within target => ?_, front, links,
    whole, ?_⟩
  · rcases (tended.clear allowed below names absent within).1 with missing | inside
    · rw [missing]
      simp
    · exact not_link_of_hasDirectory inside
  · rw [tended.carries.start]
    exact tended.carries.runs _ _ _ run below.inside

/-- The names of the directory lead as far. -/
theorem reaches_iff :
    after.Reaches directory (namesOf (name :: behind)) (Pointed (Path.join home domain)) front ↔
      files.Reaches directory (namesOf (name :: behind)) (Pointed (Path.join home domain)) front := by
  -- Nothing on the way was there at first, and nothing but directories is there now, so that the way is free in both.
  have clear := fun {front : List String} (within : front <+: namesOf (name :: behind)) =>
    tended.clear allowed below names absent within
  constructor
  · intro reaches
    refine ⟨reaches.within, ⟨reaches.free.short, fun inner before => ?_⟩, fun same pointed => ?_⟩
    · by_cases empty : inner = []
      · rw [empty, List.append_nil]
        exact .inr below.inside
      · exact .inl (absent_within absent names (before.trans reaches.within) empty)
    · -- The last directory behind a point would not be there otherwise.
      by_contra missing
      have nothing := (clear List.prefix_rfl).2 fun all => missing (all.level rfl pointed)
      have inside := reaches.level same pointed
      rw [hasDirectory_of_absent nothing] at inside
      cases inside
  · intro reaches
    refine ⟨reaches.within, ⟨reaches.free.short, fun inner before => (clear (before.trans reaches.within)).1⟩, ?_⟩
    intro same pointed
    have inside := reaches.level same pointed
    rw [hasDirectory_of_absent (absent_within absent names List.prefix_rfl fun bare => ?_)] at inside
    · cases inside
    · rw [Path.namesOf_cons_name names] at bare
      cases bare

/-- A domain whose directory is missing at first is opened as it would have been. -/
theorem opens_of_below : Opens files home domain after := by
  -- Both times the same names lead to directories, and the ones that are missing are made.
  have ensured := ensureDirectories_ensured below
  have again := ensureDirectories_ensured (tended.stays_below allowed below names absent)
  have reaches := fun {front : List String} => @reaches_iff _ _ _ _ _ _ _ _ front tended allowed below names absent
  refine ⟨?_, again.extends, fun place => ?_, fun place made => ?_⟩
  · rw [Granted, Granted, again.done, ensured.done, reaches]
  · refine (again.node place).imp_right ?_
    rintro ⟨missing, -, front, reached, rfl⟩
    refine ⟨absent_within absent names reached.within ?_, ensured.made front (reaches.1 reached)⟩
    -- The directory above is there.
    rintro rfl
    have inside := tended.carries.directory _ below.inside
    rw [List.append_nil] at missing
    rw [hasDirectory_of_absent missing] at inside
    cases inside
  · rcases ensured.node place with same | ⟨-, -, front, reached, rfl⟩
    · have inside := made.inside
      rw [opened, hasDirectory, same, made.absent] at inside
      cases inside
    · exact again.made front (reaches.2 reached)

end Making

/-- Nothing but a directory is on the way where one is made for the domain. -/
theorem directory_of_made (tended : Tended files home domain written after) (onWay : files.OnWay home domain place)
    (made : files.Made home domain place) : after.node? place = none ∨ after.hasDirectory place = true := by
  rcases tended.seen place onWay with seen | ⟨-, missing⟩ | ⟨-, ⟨_, _, _, takes, rfl⟩, -⟩
  · exact .inr ((hasDirectory_of_seen seen).trans made.inside)
  · exact .inl missing
  · -- No settings are where a directory is made.
    exact absurd (takes.plain.symm.trans made.inside) (by decide)

/-- Once the domain is opened, all that is on the way is as it was then, but for the settings. -/
theorem seen_of_whole (tended : Tended files home domain written after) (whole : Whole files home domain after)
    (onWay : files.OnWay home domain place) : after.seen? place = (files.opened home domain).seen? place ∨
      (written ∧ files.Replaces home domain place ∧ after.HasFile place) := by
  refine (tended.seen place onWay).imp_right fun either => either.resolve_left ?_
  rintro ⟨made, missing⟩
  have inside := whole place made
  rw [hasDirectory_of_absent missing] at inside
  cases inside

/-- The way begins where it did. -/
theorem walkOf_eq (site : Site files home domain) (tended : Tended files home domain written after) (path : String) :
    after.walkOf path = (files.opened home domain).walkOf path := by
  rw [walkOf, walkOf, tended.carries.start, site.extended.grows.keeps.start]

/-- Where all is made and nothing is written, the files look as they do when the domain is opened, all along the way. -/
theorem alike (site : Site files home domain) (tended : Tended files home domain written after)
    (sound : pathFault? (Path.join home domain) = none) (whole : Whole files home domain after)
    (unwritten : written → ∀ place, files.Replaces home domain place → ¬after.HasFile place) :
    Alike (files.opened home domain) after ((files.opened home domain).walkOf (settingsPath home domain)) where
  lost := tended.carries.lost.trans site.extended.lost.symm
  workDir := tended.carries.workDir.trans site.extended.workDir.symm
  seen _ comes := (tended.seen_of_whole whole ⟨sound, comes⟩).resolve_right fun others =>
    unwritten others.1 _ others.2.1 others.2.2

section Opening

variable (site : Site files home domain) (tended : Tended files home domain written after)

include site tended

/-- A domain that cannot be opened at first cannot be opened later, if nothing was missing that could be made. -/
theorem opens_of_closed (allowed : written → files.Granted home domain) (same : files.opened home domain = files)
    (refused : ¬files.Granted home domain)
    (sound : pathFault? (Path.join home domain) = none)
    (nowhere : ∀ directory name behind, files.Below (Path.join home domain) directory (name :: behind) → Path.Names name →
      files.node? (directory ++ [name]) ≠ none) : Opens files home domain after := by
  -- Nothing is made for the domain, and nothing is written, so that all that is on its way is as it was.
  have alike := tended.alike site sound (fun place made => absurd made (not_made same place)) fun done =>
    absurd (allowed done) refused
  rw [same] at alike
  have later := site.later tended.carries
  have plain := Path.isAbsolute_of_not_mem configFileName_names.2
  have starts : files.start (settingsPath home domain) = files.start (Path.join home domain) :=
    start_congr (Path.isAbsolute_join plain)
  rcases later.cases with ⟨result, unchanged, done⟩ | ⟨directory, name, behind, below, names, absent⟩
  · refine .of_same (not_made same) unchanged ⟨fun ok => ?_, fun granted => absurd granted refused⟩
    -- Otherwise the directory would have been there at first.
    rcases isDirectory_eq_true_iff.1 (done ok) with ⟨mode, leads⟩ | ⟨place, leads, inside⟩
    · exact absurd leads (resolve_ne_lost later.isAbsolute_join mode)
    · obtain ⟨links, run⟩ := (ends_of_resolve leads).runs_found
      obtain ⟨front, fewer, whole, ahead⟩ := run.behind site.relative.2.2 plain
      rw [tended.carries.start, ← starts] at ahead
      rw [walkOf, settingsPath, whole] at alike
      have before := alike.front.runs_back ahead
      have there := (alike.front.agrees before).hasDirectory.symm.trans inside
      have opened := ensureDirectories_of_ahead plain site.relative.2.2 (pathFault?_of_resolve leads) whole before there
      exact absurd (congrArg Prod.fst opened) refused
  · -- So would the directory in which the next name is missing, and the name would have been missing there.
    obtain ⟨front, links, whole, ahead⟩ := below.run
    obtain ⟨more, shown⟩ := Path.pieces_join_of_name plain whole names.ne_empty
    rw [tended.carries.start, ← starts] at ahead
    rw [walkOf, settingsPath, shown] at alike
    have before : files.Runs true ⟨mostLinks, files.start (settingsPath home domain), front⟩ ⟨links, some directory, []⟩ :=
      alike.front.runs_back ahead
    have comes : files.Runs true ⟨mostLinks, files.start (settingsPath home domain), front ++ name :: more⟩
        ⟨links, some directory, name :: more⟩ := before.append (.inr rfl)
    have agrees := alike.agrees comes
    have inside := agrees.hasDirectory.symm.trans below.inside
    have missing := absent_of_seen (agrees.seen _ (.below inside names)).symm absent
    rw [starts] at before
    exact absurd missing (nowhere directory name behind ⟨below.sound, inside, below.level,
      unlinked_of_absent inside names missing behind, front, links, whole, before⟩ names)

/-- In files in which nobody but the domain has done something on its way, the domain is opened as at first. -/
theorem opens (allowed : written → files.Granted home domain) : Opens files home domain after := by
  -- Either something is missing on the way at first, or the directory is there, or it cannot be created.
  by_cases missing : ∃ directory name behind, files.Below (Path.join home domain) directory (name :: behind) ∧
      Path.Names name ∧ files.node? (directory ++ [name]) = none
  · obtain ⟨directory, name, behind, below, names, absent⟩ := missing
    exact tended.opens_of_below allowed below names absent
  · obtain ⟨result, unchanged, done⟩ := site.cases.resolve_right missing
    have same : files.opened home domain = files := congrArg Prod.snd unchanged
    by_cases granted : files.Granted home domain
    · have inside := done ((congrArg Prod.fst unchanged).symm.trans granted)
      exact .of_same (not_made same) (site.ensureDirectories_of_isDirectory inside tended.carries)
        ⟨fun _ => granted, fun _ => rfl⟩
    · cases fault : pathFault? (Path.join home domain) with
      | some fault =>
        exact .of_same (not_made same) (ensureDirectories_of_fault site.relative.2.2 fault)
          ⟨fun done => (by cases done), fun done => absurd done granted⟩
      | none =>
        refine tended.opens_of_closed site allowed same granted fault fun directory name behind below names absent => ?_
        exact missing ⟨directory, name, behind, below, names, absent⟩

end Opening

section Kept

variable {later : FileSystem}

/-- Nobody has done anything at first. -/
theorem refl (site : Site files home domain) (written : Prop) : Tended files home domain written files where
  carries := .refl files
  seen place _ := by
    rcases site.extended.node place with same | ⟨absent, inside⟩
    · exact .inl (seen?_congr same).symm
    · exact .inr (.inl ⟨⟨absent, inside⟩, absent⟩)

/-- More may have been done than is said. -/
theorem mono {more : Prop} (tended : Tended files home domain written after) (weaker : written → more) :
    Tended files home domain more after where
  carries := tended.carries
  seen place onWay := (tended.seen place onWay).imp_right (.imp_right (.imp_left weaker))

/-- Nobody else has done something on the way if it stays as it is, but for directories that are made for the domain. -/
theorem step (tended : Tended files home domain written after) (carries : after.Carries later)
    (kept : ∀ place, files.OnWay home domain place → later.node? place = after.node? place ∨
      (files.Made home domain place ∧ later.hasDirectory place = true)) : Tended files home domain written later where
  carries := tended.carries.trans carries
  seen place onWay := by
    rcases kept place onWay with same | ⟨made, inside⟩
    · rw [seen?_congr same, HasFile, same]
      exact tended.seen place onWay
    · exact .inl (seen?_of_directories made.inside inside)

/-- Nor has it if the settings of the domain are written. -/
theorem write (tended : Tended files home domain written after) {mode : Nat} {content : List UInt8}
    (carries : after.Carries (after.put (directory ++ [name]) (.file mode content)))
    (inside : after.hasDirectory directory = true) (done : written)
    (replaced : files.Replaces home domain (directory ++ [name])) :
    Tended files home domain written (after.put (directory ++ [name]) (.file mode content)) where
  carries := tended.carries.trans carries
  seen place onWay := by
    by_cases own : place = directory ++ [name]
    · subst own
      exact .inr (.inr ⟨done, replaced, mode, content, node?_put_self ..⟩)
    · have same : (after.put (directory ++ [name]) (.file mode content)).node? place = after.node? place :=
        node?_put_other (isSome_of_hasDirectory inside) own
      rw [seen?_congr same, HasFile, same]
      exact tended.seen place onWay

end Kept

section Written

variable (site : Site files home domain) (tended : Tended files home domain written after)
  (sound : pathFault? (Path.join home domain) = none) (whole : Whole files home domain after)

include site tended sound whole

/-- Once the domain is opened, the way to its settings comes by nothing else. -/
theorem onWay_of_comesBy (comes : after.ComesBy (after.walkOf (settingsPath home domain)) place) :
    files.OnWay home domain place := by
  rw [tended.walkOf_eq site] at comes
  -- The settings are the only thing that looks other than at first, and no walk goes on from a file.
  refine ⟨sound, comes.of_files (tended.carries.lost.trans site.extended.lost.symm)
    (tended.carries.workDir.trans site.extended.workDir.symm) fun place before => ?_⟩
  exact (tended.seen_of_whole whole ⟨sound, before⟩).imp_right fun written => written.2.2

/-- Once the settings were written, the way to them leads to their file. -/
theorem ends_of_replaces {mode : Nat} {content : List UInt8} (replaced : files.Replaces home domain place)
    (found : after.node? place = some (.file mode content)) :
    after.Ends true (after.walkOf (settingsPath home domain)) (.ok (.found place)) := by
  have first := site.later site.extended.grows.keeps.carries
  obtain ⟨target, directory, name, takes, rfl⟩ := replaced
  obtain ⟨result, ends, fileward⟩ := fileward_of_replacedPath first.anchored first.isAbsolute_settingsPath takes.replaced
    takes.sound takes.entry takes.plain
  obtain ⟨links, run⟩ := runs_of_replacedPath first.anchored ends fileward takes.replaced takes.entry takes.plain
  -- Nothing else on the way was written.
  have same : ∀ place, files.OnWay home domain place → place ≠ directory ++ [name] →
      after.seen? place = (files.opened home domain).seen? place := by
    intro place onWay other
    rcases tended.seen_of_whole whole onWay with seen | ⟨-, ⟨_, _, _, again, rfl⟩, -⟩
    · exact seen
    · exact absurd (Option.some.inj (again.replacedPlace?.symm.trans takes.replacedPlace?)) other
  have again := fileward.runs_elsewhere ends run takes.entry.names takes.plain
    (tended.carries.lost.trans site.extended.lost.symm) (tended.carries.workDir.trans site.extended.workDir.symm)
    fun place comes => same place ⟨sound, comes⟩
  have inside := (hasDirectory_of_seen (same directory ⟨sound, _, run, .here⟩ (by simp))).trans takes.entry.inside
  have last : after.Moves true ⟨links, some directory, [name]⟩ ⟨links, some (directory ++ [name]), []⟩ :=
    .down inside takes.entry.names takes.entry.short found (by simp)
  rw [tended.walkOf_eq site]
  exact ⟨_, again.tail last, .found (by rw [found]; rfl)⟩

/-- What is replaced when the settings are written is what would have been at first. -/
theorem replaces (takes : after.Replaceable (settingsPath home domain) target directory name) :
    files.Replaces home domain (directory ++ [name]) := by
  have first := site.later site.extended.grows.keeps.carries
  have later := site.later tended.carries
  -- Once a file is where the settings go, the way leads there, and until then all looks as at first.
  by_cases filed : written ∧ ∃ place, files.Replaces home domain place ∧ after.HasFile place
  · -- The settings are a file, to which the way leads as it did before.
    obtain ⟨-, _, replaced, mode, content, found⟩ := filed
    have leads := tended.ends_of_replaces site sound whole replaced found
    rcases replacedPath_cases takes.replaced with resolved | ⟨missing, -⟩
    · obtain ⟨-, ends, -⟩ := runs_of_canonical later.anchored resolved takes.entry takes.plain
      obtain rfl : directory ++ [name] = _ := by simpa using ends.unique leads
      exact replaced
    · obtain ⟨result, lacking, ends⟩ :=
        lacking_of_replacedPath later.anchored later.isAbsolute_settingsPath takes.replaced missing takes.sound
      obtain rfl := ends.unique leads
      rcases lacking with absent | ⟨_, _, absent⟩ <;> cases absent
  · have alike := tended.alike site sound whole fun done place replaced file => filed ⟨done, place, replaced, file⟩
    have walk := alike.walkOf (settingsPath home domain)
    obtain ⟨takes, -⟩ := takes.congr (walk ▸ alike.symm) later.anchored first.anchored later.isAbsolute_settingsPath
    exact ⟨target, directory, name, takes, rfl⟩

end Written

end Tended

end ConfigStore
