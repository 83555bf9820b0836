import ConfigStore.Proofs.Backend.Beside

/-! Domains below one home that have no links on their ways. Whether they get in each other's way can be told by their
names. -/

namespace ConfigStore

open FileSystem
open Path (namesOf)

namespace FileSystem

variable {files : FileSystem} {followLast : Bool} {links : Nat} {base place : Location} {path name : String}
  {inner pieces : List String}

/-- Without links, a walk goes from a base by its names, if none of its pieces leads upwards. -/
theorem Runs.along {last : Walk} (run : files.Runs followLast ⟨links, some base, pieces⟩ last) (level : ".." ∉ pieces)
    (unlinked : files.Unlinked base (namesOf pieces)) :
    ∃ front back, pieces = front ++ back ∧ last = ⟨links, some (base ++ namesOf front), back⟩ := by
  -- A move passes over a piece, or goes down by it.
  generalize start : Walk.mk links (some base) pieces = walk at run
  induction run using Relation.ReflTransGen.head_induction_on generalizing base pieces with
  | refl =>
    subst start
    exact ⟨[], pieces, rfl, by rw [show namesOf [] = [] from rfl, List.append_nil]⟩
  | head moves _ ih =>
    subst start
    cases moves with
    | void _ void =>
      rw [Path.namesOf_cons_void void] at unlinked
      obtain ⟨front, back, rfl, rfl⟩ := ih (fun member => level (List.mem_cons_of_mem _ member)) unlinked rfl
      exact ⟨_ :: front, back, rfl, by rw [Path.namesOf_cons_void void]⟩
    | up _ => exact absurd List.mem_cons_self level
    | down _ names _ _ _ =>
      rw [Path.namesOf_cons_name names] at unlinked
      obtain ⟨front, back, rfl, rfl⟩ := ih (fun member => level (List.mem_cons_of_mem _ member)) unlinked.tail rfl
      exact ⟨_ :: front, back, rfl, by rw [Path.namesOf_cons_name names, List.append_assoc, List.singleton_append]⟩
    | link _ names _ found _ =>
      rw [Path.namesOf_cons_name names] at unlinked
      exact absurd found (unlinked [_] (List.cons_prefix_cons.2 ⟨rfl, List.nil_prefix⟩) _)

/-- A walk along names sees no more than they lead to. -/
theorem Sees.along {front back : List String} (sees : files.Sees ⟨links, some (base ++ namesOf front), back⟩ place) :
    ∃ names, names <+: namesOf (front ++ back) ∧ place = base ++ names := by
  rw [Path.namesOf_append]
  cases sees with
  | here => exact ⟨_, List.prefix_append .., rfl⟩
  | below _ names =>
    refine ⟨namesOf front ++ [_], ?_, List.append_assoc ..⟩
    rw [Path.namesOf_cons_name names, List.prefix_append_right_inj]
    exact List.cons_prefix_cons.2 ⟨rfl, List.nil_prefix⟩

/-- Without links, a walk that goes from a base ends by its last name. -/
theorem Ends.along {result : Place} (ends : files.Ends followLast ⟨links, some base, inner ++ [name]⟩ (.ok result))
    (names : Path.Names name) (level : ".." ∉ inner) (unlinked : files.Unlinked base (namesOf inner ++ [name])) :
    result = .found (base ++ (namesOf inner ++ [name])) ∨ result = .missing (base ++ namesOf inner) name := by
  obtain ⟨final, run, halts⟩ := ends
  have spelled : namesOf (inner ++ [name]) = namesOf inner ++ [name] := Path.namesOf_last names (by simp)
  have straight : ".." ∉ inner ++ [name] := by
    simpa [level] using names.down.symm
  obtain ⟨front, back, whole, rfl⟩ := run.along straight (spelled.symm ▸ unlinked)
  cases halts with
  | found _ =>
    rw [List.append_nil] at whole
    rw [← whole, spelled]
    exact .inl rfl
  | @missing _ _ piece rest _ _ _ _ closed =>
    -- The last name is not empty, so that nothing is behind what is missing.
    have ended : rest = [] := by
      rcases List.eq_nil_or_concat rest with ended | ⟨more, last, rfl⟩
      · exact ended
      · rw [List.concat_eq_append, ← List.cons_append, ← List.append_assoc] at whole
        obtain ⟨-, rfl⟩ := List.append_singleton_inj.1 whole
        exact absurd (String.isEmpty_iff.1 (List.all_eq_true.1 closed name (by simp))) names.ne_empty
    subst ended
    obtain ⟨rfl, rfl⟩ := List.append_singleton_inj.1 whole
    exact .inr rfl
  | link _ _ _ found _ =>
    obtain ⟨rfl, rfl⟩ := List.append_singleton_inj.1 whole
    rw [List.append_assoc] at found
    exact absurd found (unlinked _ List.prefix_rfl _)

/-- A path goes on from its base. -/
theorem Based.runs (based : files.Based path base pieces) (filled : pieces ≠ []) :
    ∃ links, files.Runs followLast (files.walkOf path) ⟨links, some base, pieces⟩ := by
  obtain ⟨front, links, whole, run⟩ := based.run
  rw [walkOf, whole]
  exact ⟨links, run.append (.inl filled)⟩

/-- Without links behind its base, a path comes by directories and links in front of it, and by its names behind it. -/
theorem Based.comesBy_cases (based : files.Based path base pieces) (filled : pieces ≠ [])
    (unlinked : files.Unlinked base (namesOf pieces)) (comes : files.ComesBy (files.walkOf path) place) :
    (files.hasDirectory place = true ∨ ∃ target, files.node? place = some (.link target)) ∨
      ∃ names, names <+: namesOf pieces ∧ place = base ++ names := by
  obtain ⟨links, run⟩ := based.runs filled
  obtain ⟨middle, before, sees⟩ := comes
  -- Every move is the only one, so the walk is in front of the base or behind it.
  rcases Relation.ReflTransGen.total_of_right_unique (fun _ _ _ one other => one.unique other) before run with
    ahead | behind
  · rcases Runs.cases ahead with rfl | ⟨next, moves, rest⟩
    · have seen : files.Sees ⟨links, some (base ++ namesOf []), pieces⟩ place := by
        rw [show namesOf [] = [] from rfl, List.append_nil]
        exact sees
      exact .inr seen.along
    · cases sees with
      | here => exact .inl (.inl moves.inside.1)
      | below _ names =>
        cases moves with
        | void _ void => exact absurd void names.not_isVoid
        | up _ => exact absurd rfl names.down
        | down _ _ _ _ _ =>
          -- From there, the walk goes on to the base, or is at it.
          rcases Runs.cases rest with same | ⟨_, more, -⟩
          · obtain rfl := Option.some.inj (congrArg Walk.here same)
            exact .inl (.inl based.inside)
          · exact .inl (.inl more.inside.1)
        | link _ _ _ found _ => exact .inl (.inr ⟨_, found⟩)
  · obtain ⟨front, back, rfl, rfl⟩ := Runs.along behind based.level unlinked
    exact .inr sees.along

/-- What is replaced is no directory, and the target of the replaced path leads there. -/
theorem exists_target_of_replacedPlace? (replaced : files.replacedPlace? path = some place) :
    files.hasDirectory place = false ∧ ∃ target, replacedPath files path {} = .ok target ∧
      (files.resolve false target = .ok (.found place) ∨
        ∃ directory last, files.resolve false target = .ok (.missing directory last) ∧ place = directory ++ [last]) := by
  rw [replacedPlace?] at replaced
  split at replaced
  · cases replaced
  · next target aims =>
    split at replaced
    · next directory last leads =>
      obtain rfl := Option.some.inj replaced
      exact ⟨hasDirectory_of_absent (ends_of_resolve leads).missing.2, target, aims, .inr ⟨directory, last, leads, rfl⟩⟩
    · next there leads =>
      split at replaced
      · cases replaced
      · next plain =>
        obtain rfl := Option.some.inj replaced
        exact ⟨by simpa using plain, target, aims, .inl leads⟩
    · cases replaced

/-- Without links behind its base, what is replaced for a path is by its last name. -/
theorem Based.replacedPlace? (based : files.Based path base (inner ++ [name])) (names : Path.Names name)
    (anchored : files.Anchored) (unlinked : files.Unlinked base (namesOf inner ++ [name]))
    (replaced : files.replacedPlace? path = some place) : place = base ++ (namesOf inner ++ [name]) := by
  have level : ".." ∉ inner := fun member => based.level (List.mem_append_left _ member)
  have ended : ∀ {followLast result}, files.Ends followLast (files.walkOf path) (.ok result) →
      result = .found (base ++ (namesOf inner ++ [name])) ∨ result = .missing (base ++ namesOf inner) name := by
    intro followLast result ends
    obtain ⟨links, run⟩ := based.runs (by simp)
    exact (ends.of_runs run).along names level unlinked
  obtain ⟨-, target, aims, leads⟩ := exists_target_of_replacedPlace? replaced
  rcases replacedPath_cases aims with resolved | ⟨-, ⟨-, rfl⟩ | ⟨-, aim, link, -⟩⟩
  · -- The path without links is that of the same place.
    obtain ⟨start, there, starts, -, -, -, ends⟩ := canonical_ends anchored resolved
    rw [← starts] at ends
    obtain ⟨rfl, grounded, own⟩ := grounded_of_canonical anchored resolved ends
    obtain ⟨rfl⟩ : there = base ++ (namesOf inner ++ [name]) := by simpa using ended ends
    have pieces : Path.pieces (placePath (base ++ (namesOf inner ++ [name]))) =
        "" :: (base ++ namesOf inner) ++ [name] := by
      rw [pieces_placePath (by simp) fun piece member => (own piece member).2, List.cons_append, List.append_assoc]
    rcases leads with leads | ⟨directory, last, leads, rfl⟩
    · obtain ⟨directory, rfl, entry⟩ := entry_of_found pieces names leads
      exact (entry.of_placePath grounded own).symm
    · obtain ⟨rfl, entry, -⟩ := entry_of_missing pieces names leads
      exact (entry.of_placePath grounded own).symm
  · rcases leads with leads | ⟨directory, last, leads, rfl⟩
    · simpa using ended (ends_of_resolve leads)
    · obtain ⟨rfl, rfl⟩ : directory = base ++ namesOf inner ∧ last = name := by simpa using ended (ends_of_resolve leads)
      exact List.append_assoc ..
  · -- No link is there that could be read.
    rw [readLink?] at link
    split at link
    · next there found =>
      obtain rfl : there = base ++ (namesOf inner ++ [name]) := by simpa using ended (ends_of_resolve found)
      split at link
      · next target linked => exact absurd linked (unlinked _ List.prefix_rfl _)
      · cases link
    · cases link

end FileSystem

section Neighbours

variable {files : FileSystem} {home domain other neighbour : String} {base place : Location} {rest : List String}

/-- The settings of a domain are behind the base of its home, by the names of the domain. -/
theorem FileSystem.Based.settings (based : files.Based home base rest) (accepted : domainFault? domain = none) :
    ∃ inner, namesOf inner = namesOf rest ++ Path.names domain ∧
      files.Based (settingsPath home domain) base (inner ++ [configFileName]) := by
  obtain ⟨-, relative, level⟩ := domainFault?_eq_none_iff.1 accepted
  have own := Path.pieces_of_not_mem configFileName_names.2
  obtain ⟨more, same, directory⟩ := based.join relative level
  obtain ⟨inner, again, settings⟩ := directory.join (Path.isAbsolute_of_not_mem configFileName_names.2)
    (by rw [own]; decide)
  rw [own] at settings
  exact ⟨inner, by rw [again, Path.namesOf_append, same]; rfl, settings⟩

/-- What is made for a domain without links on its way is made along its names. -/
theorem exists_front_of_made (based : files.Based home base rest) (accepted : domainFault? domain = none)
    (unlinked : files.Unlinked base (namesOf rest ++ Path.names domain ++ [configFileName]))
    (made : files.Made home domain place) : ∃ front, place = base ++ front ∧
      files.Reaches base (namesOf rest ++ Path.names domain) (Pointed (Path.join home domain)) front := by
  have placed := based.placed (domainDirectory_eq_ok_iff.2 ⟨accepted, rfl⟩) unlinked
  cases fault : pathFault? (Path.join home domain) with
  | some fault =>
    have same : files.opened home domain = files :=
      congrArg Prod.snd (ensureDirectories_of_fault (domainDirectory_spec placed.located).2 fault)
    exact absurd made (not_made same place)
  | none =>
    rcases (placed.ensured fault).node place with same | ⟨-, -, front, reaches, there⟩
    · have inside := made.inside
      rw [opened, hasDirectory, same, made.absent] at inside
      cases inside
    · exact ⟨front, there, reaches⟩

section Ways

variable (site : Site files home domain) (others : Site files home other) (based : files.Based home base rest)
  (unlinked : files.Unlinked base (namesOf rest ++ Path.names domain ++ [configFileName]))
  (otherUnlinked : files.Unlinked base (namesOf rest ++ Path.names other ++ [configFileName]))

include site based unlinked

/-- Without links on it, the way of a domain comes by directories and links that are there in front of the base, and by the
names of the domain behind it. -/
theorem onWay_cases (onWay : files.OnWay home domain place) :
    (files.hasDirectory place = true ∨ ∃ target, files.node? place = some (.link target)) ∨
      ∃ front, front <+: namesOf rest ++ Path.names domain ++ [configFileName] ∧ place = base ++ front := by
  have grows := site.extended.grows
  obtain ⟨inner, own, settings⟩ := (based.carries grows.keeps.carries).settings site.accepted
  have spelled : namesOf (inner ++ [configFileName]) = namesOf rest ++ Path.names domain ++ [configFileName] := by
    rw [Path.namesOf_last configFileName_names.1 (by simp), own]
  have cases := settings.comesBy_cases (by simp) (spelled.symm ▸ grows.unlinked unlinked) onWay.2
  rw [spelled] at cases
  rcases cases with (directory | ⟨target, link⟩) | behind
  · rcases site.extended.node place with same | ⟨absent, inside⟩
    · rw [hasDirectory, same] at directory
      exact .inl (.inl directory)
    · -- What was made is behind the base.
      obtain ⟨front, rfl, reaches⟩ := exists_front_of_made based site.accepted unlinked ⟨absent, inside⟩
      exact .inr ⟨front, reaches.within.trans (List.prefix_append ..), rfl⟩
  · exact .inl (.inr ⟨target, grows.links place target link⟩)
  · exact .inr behind

include others otherUnlinked

/-- What another domain makes on the way of a domain is made for the domain itself, unless the other one is below its
settings, or it ends in a point and is created by the other one below it only. -/
theorem node?_opened_of_unlinked (ahead : ¬Path.names domain ++ [configFileName] <+: Path.names other)
    (level : Pointed (Path.join home domain) → Path.names domain <+: Path.names other →
      files.isDirectory (Path.join home domain) = true) (onWay : files.OnWay home domain place) :
    ((files.opened home domain).opened home other).node? place = (files.opened home domain).node? place := by
  have extended := site.extended
  have grows := extended.grows
  refine ((others.later grows.keeps.carries).extended.node place).resolve_right ?_
  rintro ⟨absent, inside⟩
  obtain ⟨front, there, reaches⟩ := exists_front_of_made (based.carries grows.keeps.carries) others.accepted
    (grows.unlinked otherUnlinked) ⟨absent, inside⟩
  rcases onWay_cases site based unlinked onWay with (directory | ⟨target, link⟩) | ⟨names, within, same⟩
  · have kept := grows.keeps.directory place directory
    rw [hasDirectory_of_absent absent] at kept
    cases kept
  · have kept := grows.keeps.link place target link
    rw [absent] at kept
    cases kept
  · obtain rfl := List.append_cancel_left (there.symm.trans same)
    subst there
    have placed := based.placed (domainDirectory_eq_ok_iff.2 ⟨site.accepted, rfl⟩) unlinked
    have fewer : front <+: namesOf rest ++ Path.names domain := by
      refine (List.prefix_concat_iff.1 within).resolve_left ?_
      rintro rfl
      have below := reaches.within
      rw [List.append_assoc, List.prefix_append_right_inj] at below
      exact ahead below
    -- Nothing was in the way when the domain was opened.
    have made : (files.opened home domain).hasDirectory (base ++ front) = true := by
      refine (placed.ensured onWay.1).made front ⟨fewer, (extended.free_iff _ _).1 reaches.free, ?_⟩
      rintro rfl pointed
      obtain ⟨pieces, same, below⟩ := placed.directory onWay.1
      rw [← same]
      exact (below.isDirectory_iff.1 (level pointed ((List.prefix_append_right_inj _).1 reaches.within))).end_inside
    rw [hasDirectory_of_absent absent] at made
    cases made

/-- What is replaced when the settings of another domain are written is not on the way of a domain with other names, unless
that is below these settings. -/
theorem replacedPlace?_ne_of_unlinked (different : Path.names domain ≠ Path.names other)
    (behind : ¬Path.names other ++ [configFileName] <+: Path.names domain) (onWay : files.OnWay home domain place) :
    (files.opened home other).replacedPlace? (settingsPath home other) ≠ some place := by
  intro replaced
  have grows := others.extended.grows
  have later := others.later grows.keeps.carries
  obtain ⟨inner, own, settings⟩ := (based.carries grows.keeps.carries).settings others.accepted
  have there := settings.replacedPlace? configFileName_names.1 later.anchored
    (own.symm ▸ grows.unlinked otherUnlinked) replaced
  rw [own] at there
  rcases onWay_cases site based unlinked onWay with (directory | ⟨target, link⟩) | ⟨front, within, same⟩
  · have kept := grows.keeps.directory place directory
    rw [(exists_target_of_replacedPlace? replaced).1] at kept
    cases kept
  · exact otherUnlinked _ List.prefix_rfl target (there ▸ link)
  · obtain rfl := List.append_cancel_left (there.symm.trans same)
    rcases List.prefix_concat_iff.1 within with same | below
    · obtain ⟨same, -⟩ := List.append_singleton_inj.1 same
      exact different (List.append_cancel_left same).symm
    · rw [List.append_assoc, List.prefix_append_right_inj] at below
      exact behind below

end Ways

/-- Where no links are on their ways, two domains with different names do not get in each other's way if neither is below
the settings of the other. One that ends in a point has to be there if the other one is below it: nobody else creates it. -/
theorem neighbours_of_unlinked (mine : Site files home domain) (theirs : Site files home neighbour)
    (based : files.Based home base rest)
    (unlinked : files.Unlinked base (namesOf rest ++ Path.names domain ++ [configFileName]))
    (theirUnlinked : files.Unlinked base (namesOf rest ++ Path.names neighbour ++ [configFileName]))
    (different : Path.names domain ≠ Path.names neighbour)
    (ahead : ¬Path.names domain ++ [configFileName] <+: Path.names neighbour)
    (behind : ¬Path.names neighbour ++ [configFileName] <+: Path.names domain)
    (level : Pointed (Path.join home domain) → Path.names domain <+: Path.names neighbour →
      files.isDirectory (Path.join home domain) = true)
    (theirLevel : Pointed (Path.join home neighbour) → Path.names neighbour <+: Path.names domain →
      files.isDirectory (Path.join home neighbour) = true) : Neighbours files home domain neighbour where
  mine := mine
  theirs := theirs
  ahead _ onWay := ⟨node?_opened_of_unlinked mine theirs based unlinked theirUnlinked ahead level onWay,
    replacedPlace?_ne_of_unlinked mine theirs based unlinked theirUnlinked different behind onWay⟩
  behind _ onWay := ⟨node?_opened_of_unlinked theirs mine based theirUnlinked unlinked behind theirLevel onWay,
    replacedPlace?_ne_of_unlinked theirs mine based theirUnlinked unlinked different.symm ahead onWay⟩

end Neighbours

end ConfigStore
