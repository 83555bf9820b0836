import ConfigStore.Proofs.Backend.Placed
import ConfigStore.Proofs.Files.Carries
import ConfigStore.Proofs.Files.Making
import ConfigStore.Proofs.Files.WrittenAlike

/-! Two domains in the same files. What opening a domain makes is settled by the files that are there at first, unless the
other domain makes something on its way. -/

namespace ConfigStore

open FileSystem
open Path (namesOf)

namespace FileSystem

variable {files : FileSystem} {home domain other path target name next : String} {place directory base : Location}
  {front pieces : List String}

/-- The files once a domain is opened. -/
def opened (files : FileSystem) (home domain : String) : FileSystem :=
  (files.ensureDirectories (Path.join home domain)).2

/-- A domain can be opened: its directory is there, or is created. -/
def Granted (files : FileSystem) (home domain : String) : Prop :=
  (files.ensureDirectories (Path.join home domain)).1 = .ok ()

/-- A directory that is missing is made when a domain is opened. -/
structure Made (files : FileSystem) (home domain : String) (place : Location) : Prop where
  /-- Nothing is there yet. -/
  absent : files.node? place = none
  /-- Then it is a directory. -/
  inside : (files.opened home domain).hasDirectory place = true

/-- A place that is come by on the way to the settings file of a domain, once that is opened: a directory or a link on the
way, the settings file itself, or what is missing there. There is no way if the path of the domain has a fault of its own. -/
def OnWay (files : FileSystem) (home domain : String) (place : Location) : Prop :=
  pathFault? (Path.join home domain) = none ∧
    (files.opened home domain).ComesBy ((files.opened home domain).walkOf (settingsPath home domain)) place

/-- The place of what is replaced when a file is written to a path, if one can be. -/
def replacedPlace? (files : FileSystem) (path : String) : Option Location :=
  match replacedPath files path {} with
  | .error _ => none
  | .ok target =>
    match files.resolve false target with
    | .ok (.missing directory name) => some (directory ++ [name])
    | .ok (.found place) => if files.hasDirectory place then none else some place
    | _ => none

/-- Another domain stays off the way to the settings file of a domain: nothing there is made when the other one is opened,
and nothing is replaced when its settings are written. -/
def StaysOff (files : FileSystem) (home other domain : String) : Prop :=
  ∀ place, files.OnWay home domain place →
    ((files.opened home domain).opened home other).node? place = (files.opened home domain).node? place ∧
      (files.opened home other).replacedPlace? (settingsPath home other) ≠ some place

/-- Whether another domain is seen to stay off a domain, by a walk of so many steps to the settings file. -/
def staysOff? (files : FileSystem) (home other domain : String) (steps : Nat) : Bool :=
  match (files.opened home domain).looks? steps ((files.opened home domain).walkOf (settingsPath home domain)) with
  | none => false
  | some places => places.all fun place =>
    ((files.opened home domain).opened home other).node? place == (files.opened home domain).node? place &&
      (files.opened home other).replacedPlace? (settingsPath home other) != some place

/-- What is seen is so. -/
theorem staysOff_of_seen {steps : Nat} (seen : files.staysOff? home other domain steps = true) :
    files.StaysOff home other domain := by
  intro place onWay
  rw [staysOff?] at seen
  split at seen
  · cases seen
  · next places looked =>
    have both := List.all_eq_true.1 seen place (onWay.2.mem_looks looked)
    rw [Bool.and_eq_true, beq_iff_eq, bne_iff_ne] at both
    exact both

/-- What is replaced is by the name in which the replaced path ends. -/
theorem Replaceable.replacedPlace? (takes : files.Replaceable path target directory name) :
    files.replacedPlace? path = some (directory ++ [name]) := by
  rw [FileSystem.replacedPlace?, takes.replaced]
  simp only [takes.entry.resolve takes.sound (.inl rfl)]
  -- It is found or missing there, and in either case its place is by the name.
  cases files.node? (directory ++ [name]) with
  | none => rfl
  | some node => simp [takes.plain]

/-- A home leads to its base as well where whatever led to a directory still does. -/
theorem Based.carries {after : FileSystem} {rest : List String} (based : files.Based home base rest)
    (carries : files.Carries after) : after.Based home base rest := by
  obtain ⟨inside, level, front, links, whole, run⟩ := based
  refine ⟨carries.directory _ inside, level, front, links, whole, ?_⟩
  rw [carries.start]
  exact carries.runs _ _ _ run inside

/-- A relative path behind a home goes on from the home's base. -/
theorem Based.join {rest : List String} (based : files.Based home base rest) (relative : Path.isAbsolute path = false)
    (level : ".." ∉ Path.pieces path) :
    ∃ more, namesOf more = namesOf rest ∧ files.Based (Path.join home path) base (more ++ Path.pieces path) := by
  obtain ⟨ahead, links, more, whole, same, within, run⟩ := based.exists_ahead relative
  refine ⟨more, same, based.inside, fun up => ?_, ahead, links, whole, ?_⟩
  · rcases List.mem_append.1 up with above | own
    · exact based.level (within _ above)
    · exact level own
  · exact run

/-- Pieces are those of some names in front, the next name, and others. -/
theorem exists_split (within : front ++ [next] <+: namesOf pieces) :
    ∃ ahead behind, pieces = ahead ++ next :: behind ∧ namesOf ahead = front := by
  -- The void pieces in between belong to none of the names, and are left in front of the next one.
  obtain ⟨more, whole⟩ := within
  rw [List.append_assoc, List.singleton_append] at whole
  obtain ⟨ahead, behind, rfl, same, rest⟩ := List.filter_eq_append_iff.1 whole.symm
  obtain ⟨voids, behind, rfl, void, -, -⟩ := List.filter_eq_cons_iff.1 rest
  refine ⟨ahead ++ voids, behind, by simp, ?_⟩
  have bare : namesOf voids = [] := Path.namesOf_of_void fun piece member => by simpa using void piece member
  rw [Path.namesOf_append, bare, List.append_nil]
  exact same

/-- Where the way of a path is open, the path comes by the next name. -/
theorem Based.comesBy (based : files.Based path base pieces) (isOpen : files.Open base front)
    (within : front ++ [next] <+: namesOf pieces) : files.ComesBy (files.walkOf path) (base ++ (front ++ [next])) := by
  -- The walk goes to the base, then along the open way, and sees what is below its end.
  obtain ⟨lead, links, whole, run⟩ := based.run
  obtain ⟨ahead, behind, rfl, rfl⟩ := exists_split within
  have level : ".." ∉ ahead := fun member => based.level (List.mem_append_left _ member)
  have member : next ∈ namesOf (ahead ++ next :: behind) := within.subset (by simp)
  have names : Path.Names next :=
    ⟨by simpa using (List.mem_filter.1 member).2, fun up => based.level (up ▸ (List.mem_filter.1 member).1)⟩
  have comes : files.Runs true ⟨mostLinks, files.start path, lead ++ (ahead ++ next :: behind)⟩
      ⟨links, some (base ++ namesOf ahead), next :: behind⟩ := (run.append (.inr rfl)).trans (isOpen.runs level)
  rw [walkOf, whole]
  refine ⟨_, comes, ?_⟩
  rw [← List.append_assoc]
  exact .below isOpen.end_inside names

end FileSystem

/-- What is known of a domain in the files that are there at first. -/
structure Site (files : FileSystem) (home domain : String) : Prop where
  /-- The files are sound. -/
  anchored : files.Anchored
  /-- Relative paths start in a directory that is there, if the home is one. -/
  reachable : Path.isAbsolute home = true ∨ files.lost = none
  /-- The home leads to a directory, but for what may be missing at its end. -/
  based : ∃ base rest, files.Based home base rest
  /-- The domain is accepted. -/
  accepted : domainFault? domain = none

namespace Site

variable {files after : FileSystem} {home domain other : String} {place directory : Location}
  {name : String} {pieces : List String}

/-- A domain is a path behind the home that does not lead upwards. -/
theorem relative (site : Site files home domain) :
    Path.isAbsolute domain = false ∧ ".." ∉ Path.pieces domain ∧ Path.join home domain ≠ "" := by
  obtain ⟨filled, relative, level⟩ := domainFault?_eq_none_iff.1 site.accepted
  refine ⟨relative, level, fun empty => filled ?_⟩
  -- A domain that is accepted is not empty, and all of it is at the end of the path.
  have bytes := congrArg String.utf8ByteSize empty
  rw [Path.join, if_neg (by simp [relative])] at bytes
  split at bytes
  · rw [String.utf8ByteSize_append, String.utf8ByteSize_empty] at bytes
    exact String.utf8ByteSize_eq_zero_iff.1 (by omega)
  · rw [String.utf8ByteSize_append, String.utf8ByteSize_empty] at bytes
    exact String.utf8ByteSize_eq_zero_iff.1 (by omega)

/-- The path of a domain that can be opened has no fault of its own. -/
theorem sound (site : Site files home domain) (granted : files.Granted home domain) :
    pathFault? (Path.join home domain) = none := by
  cases fault : pathFault? (Path.join home domain) with
  | none => rfl
  | some fault =>
    rw [Granted, ensureDirectories_of_fault site.relative.2.2 fault] at granted
    cases granted

/-- The same is known later, when whatever led to a directory still does. -/
theorem later (site : Site files home domain) (carries : files.Carries after) : Site after home domain where
  anchored := carries.anchored site.anchored
  reachable := by
    rw [carries.lost]
    exact site.reachable
  based := by
    obtain ⟨base, rest, based⟩ := site.based
    exact ⟨base, rest, based.carries carries⟩
  accepted := site.accepted

/-- Opening the domain changes nothing, and is done if its directory is there, or something is missing on the way to that. -/
theorem cases (site : Site files home domain) :
    (∃ result, files.ensureDirectories (Path.join home domain) = (result, files) ∧
        (result = .ok () → files.isDirectory (Path.join home domain) = true)) ∨
      ∃ directory name behind, files.Below (Path.join home domain) directory (name :: behind) ∧ Path.Names name ∧
        files.node? (directory ++ [name]) = none := by
  obtain ⟨relative, level, filled⟩ := site.relative
  obtain ⟨base, rest, based⟩ := site.based
  exact based.ensureDirectories_cases relative level filled

/-- The path of the domain's directory begins where the home does. -/
theorem isAbsolute_join (site : Site files home domain) :
    Path.isAbsolute (Path.join home domain) = true ∨ files.lost = none := by
  rw [Path.isAbsolute_join site.relative.1]
  exact site.reachable

/-- So does that of its settings. -/
theorem isAbsolute_settingsPath (site : Site files home domain) :
    Path.isAbsolute (settingsPath home domain) = true ∨ files.lost = none := by
  rw [settingsPath, Path.isAbsolute_join (Path.isAbsolute_of_not_mem configFileName_names.2)]
  exact site.isAbsolute_join

/-- Where the domain's directory is there, it stays wherever all directories do, and opening the domain changes nothing. -/
theorem ensureDirectories_of_isDirectory (site : Site files home domain)
    (inside : files.isDirectory (Path.join home domain) = true) (carries : files.Carries after) :
    after.ensureDirectories (Path.join home domain) = (.ok (), after) := by
  -- What leads to a directory still does, and then there is nothing to be done.
  rcases isDirectory_eq_true_iff.1 inside with ⟨mode, leads⟩ | ⟨place, leads, inside⟩
  · exact absurd leads (resolve_ne_lost site.isAbsolute_join mode)
  · obtain ⟨links, run⟩ := (ends_of_resolve leads).runs_found
    have again := carries.runs _ _ _ run inside
    rw [walkOf, ← carries.start] at again
    exact ensureDirectories_of_directory (pathFault?_of_resolve leads) again (carries.directory place inside)

/-- Opening the domain makes directories, and nothing else. -/
theorem extended (site : Site files home domain) : files.Extends (files.opened home domain) := by
  rcases site.cases with ⟨result, same, -⟩ | ⟨directory, name, behind, below, -, -⟩
  · rw [opened, same]
    exact .refl files
  · exact (ensureDirectories_ensured below).extends

/-- What opening a domain makes is made as well where there are more directories. -/
theorem made_inside (site : Site files home domain) (extended : files.Extends after)
    (made : files.Made home domain place) : (after.opened home domain).hasDirectory place = true := by
  obtain ⟨absent, inside⟩ := made
  rcases site.cases with ⟨result, same, -⟩ | ⟨directory, name, behind, below, -, -⟩
  · -- Nothing is made.
    rw [opened, same, hasDirectory_of_absent absent] at inside
    cases inside
  · rcases (ensureDirectories_ensured below).node place with same | ⟨-, -, front, reaches, rfl⟩
    · rw [opened, hasDirectory, same, absent] at inside
      cases inside
    · -- What is free is as free with more directories.
      have grows := extended.grows
      refine (ensureDirectories_ensured (below.grows grows)).made front ⟨reaches.within, ?_, fun same behind => ?_⟩
      · exact (extended.free_iff _ _).2 reaches.free
      · exact grows.keeps.directory _ (reaches.level same behind)

/-- What another domain makes on the way of a domain from which it stays off is made for the domain itself. -/
theorem made_of_other (site : Site files home domain) (others : Site files home other)
    (off : files.StaysOff home other domain) (onWay : files.OnWay home domain place) (made : files.Made home other place) :
    files.Made home domain place := by
  -- Once the domain is opened, the other one makes nothing more on its way, so that it is made already.
  have inside := others.made_inside site.extended made
  rw [hasDirectory, (off place onWay).1] at inside
  exact ⟨made.absent, inside⟩

end Site

end ConfigStore
