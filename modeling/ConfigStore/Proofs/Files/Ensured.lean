import Mathlib.Data.List.Induction
import ConfigStore.Proofs.Files.Below

/-! Creating the directory of a path below a base, with what is missing above it. It succeeds exactly if nothing but
directories is in the way, and it makes the directories that are missing, up to what is in the way. -/

namespace ConfigStore.FileSystem

open Path (namesOf)

variable {files : FileSystem} {path name : String} {base : Location} {names pieces : List String}

/-- Names in front lead to a directory that is there once directories were created along all names: nothing is in the
way, and it is not the last one behind a point. -/
structure Reaches (files : FileSystem) (base : Location) (names : List String) (pointed : Prop) (front : List String) :
    Prop where
  /-- The names are the first ones. -/
  within : front <+: names
  /-- Nothing is in the way. -/
  free : files.Free base front
  /-- The last directory behind a point is there already. -/
  level : front = names → pointed → files.hasDirectory (base ++ names) = true

/-- What comes of creating directories along names. -/
structure Ensured (files : FileSystem) (base : Location) (names : List String) (pointed : Prop)
    (answer : Except FileFault Unit × FileSystem) : Prop where
  /-- Relative paths start where they did. -/
  lost : answer.2.lost = files.lost
  /-- They start in the same directory. -/
  workDir : answer.2.workDir = files.workDir
  /-- It is done if all names lead to a directory. -/
  done : answer.1 = .ok () ↔ files.Reaches base names pointed names
  /-- Directories are made as far as names lead to one. -/
  made : ∀ front, files.Reaches base names pointed front → answer.2.hasDirectory (base ++ front) = true
  /-- Nothing else is made, and what was there stays. -/
  node : ∀ place, answer.2.node? place = files.node? place ∨
    (files.node? place = none ∧ answer.2.hasDirectory place = true ∧
      ∃ front, files.Reaches base names pointed front ∧ place = base ++ front)

/-- Names in front lead to a directory no less when another name comes behind. -/
theorem Reaches.append {front : List String} {pointed : Prop} (reaches : files.Reaches base names False front) :
    files.Reaches base (names ++ [name]) pointed front where
  within := reaches.within.trans (List.prefix_append ..)
  free := reaches.free
  level same := absurd (same ▸ reaches.within) not_concat_prefix

/-- Names in front of the last one lead to a directory without it. -/
theorem Reaches.front {front : List String} {pointed : Prop}
    (reaches : files.Reaches base (names ++ [name]) pointed front) (within : front <+: names) :
    files.Reaches base names False front :=
  ⟨within, reaches.free, fun _ never => never.elim⟩

namespace Ensured

variable {pointed : Prop} {answer : Except FileFault Unit × FileSystem}

/-- Where nothing had to be done, nothing was. -/
theorem of_same {result : Except FileFault Unit}
    (done : result = .ok () ↔ files.Reaches base names pointed names)
    (made : ∀ front, files.Reaches base names pointed front → files.hasDirectory (base ++ front) = true) :
    Ensured files base names pointed (result, files) :=
  ⟨rfl, rfl, done, made, fun _ => .inl rfl⟩

/-- Where the way is open, nothing is to be done. -/
theorem of_open (isOpen : files.Open base names) : Ensured files base names pointed (.ok (), files) := by
  refine .of_same ⟨fun _ => ⟨List.prefix_rfl, isOpen.free, fun _ _ => isOpen.end_inside⟩, fun _ => rfl⟩ ?_
  exact fun front reaches => isOpen.inside front reaches.within

/-- Directories and links stay. -/
theorem keeps (ensured : Ensured files base names pointed answer) : files.Keeps answer.2 where
  lost := ensured.lost
  workDir := ensured.workDir
  directory place inside := by
    rcases ensured.node place with same | ⟨absent, -⟩
    · rw [hasDirectory, same]
      exact inside
    · rw [hasDirectory_of_absent absent] at inside
      cases inside
  link place target found := by
    rcases ensured.node place with same | ⟨absent, -⟩
    · rw [same]
      exact found
    · rw [absent] at found
      cases found

/-- Files grow by it. -/
theorem grows (ensured : Ensured files base names pointed answer) : files.Grows answer.2 where
  keeps := ensured.keeps
  links place target found := by
    rcases ensured.node place with same | ⟨-, inside, -⟩
    · exact same.symm.trans found
    · exact absurd found (not_link_of_hasDirectory inside)

/-- Nothing is made where the names do not lead. -/
theorem node?_apart {other : List String} (ensured : Ensured files base names pointed answer)
    (apart : ¬other <+: names) : answer.2.node? (base ++ other) = files.node? (base ++ other) := by
  refine (ensured.node _).resolve_right ?_
  rintro ⟨-, -, front, reaches, spelled⟩
  rw [← List.append_cancel_left spelled] at reaches
  exact apart reaches.within

/-- As far as names lead to a directory, the way is open. -/
theorem isOpen_front {front : List String} (ensured : Ensured files base names pointed answer)
    (reaches : files.Reaches base names pointed front) : answer.2.Open base front where
  short := reaches.free.short
  inside other within := by
    refine ensured.made other ⟨within.trans reaches.within, reaches.free.mono within, fun same behind => ?_⟩
    exact reaches.level (List.IsPrefix.eq_of_length_le reaches.within (same ▸ within.length_le)) behind

/-- When it is done, the way is open. -/
theorem isOpen (ensured : Ensured files base names pointed answer) (done : answer.1 = .ok ()) :
    answer.2.Open base names :=
  ensured.isOpen_front (ensured.done.1 done)

end Ensured

/-- A way is free up to a last name behind a free one if nothing is in the way there. -/
theorem free_append_iff (free : files.Free base names) :
    files.Free base (names ++ [name]) ↔ name.utf8ByteSize ≤ mostNameBytes ∧
      (files.node? (base ++ (names ++ [name])) = none ∨ files.hasDirectory (base ++ (names ++ [name])) = true) := by
  constructor
  · intro whole
    exact ⟨whole.short name (by simp), whole.solid _ List.prefix_rfl⟩
  · rintro ⟨short, solid⟩
    refine ⟨fun other member => ?_, fun front within => ?_⟩
    · rcases List.mem_append.1 member with before | last
      · exact free.short other before
      · rw [List.mem_singleton.1 last]
        exact short
    · rcases List.prefix_concat_iff.1 within with rfl | before
      · exact solid
      · exact free.solid front before

namespace Ensured

variable {middle after : FileSystem} {pointed : Prop}

/-- Directories were created along some names, and nothing was done by a last one, which does not lead to a directory. -/
theorem stuck {result : Except FileFault Unit} {fault : FileFault}
    (first : Ensured files base names False (result, middle))
    (closed : ¬files.Reaches base (names ++ [name]) pointed (names ++ [name])) :
    Ensured files base (names ++ [name]) pointed (.error fault, middle) where
  lost := first.lost
  workDir := first.workDir
  done := ⟨fun done => (by cases done), fun reaches => absurd reaches closed⟩
  made front reaches := by
    rcases List.prefix_concat_iff.1 reaches.within with rfl | before
    · exact absurd reaches closed
    · exact first.made front (reaches.front before)
  node place := by
    refine (first.node place).imp_right ?_
    rintro ⟨absent, inside, front, reaches, spelled⟩
    exact ⟨absent, inside, front, reaches.append, spelled⟩

/-- Directories were created along some names, and the one by a last name is there then, as it was before or new. -/
theorem reached (first : Ensured files base names False (.ok (), middle))
    (reaches : files.Reaches base (names ++ [name]) pointed (names ++ [name])) (lost : after.lost = middle.lost)
    (workDir : after.workDir = middle.workDir) (inside : after.hasDirectory (base ++ (names ++ [name])) = true)
    (own : after.node? (base ++ (names ++ [name])) = files.node? (base ++ (names ++ [name])) ∨
      files.node? (base ++ (names ++ [name])) = none)
    (others : ∀ place, place ≠ base ++ (names ++ [name]) → after.node? place = middle.node? place) :
    Ensured files base (names ++ [name]) pointed (.ok (), after) where
  lost := lost.trans first.lost
  workDir := workDir.trans first.workDir
  done := ⟨fun _ => reaches, fun _ => rfl⟩
  made front other := by
    rcases List.prefix_concat_iff.1 other.within with rfl | before
    · exact inside
    · rw [hasDirectory, others _ (ne_of_within before)]
      exact first.made front (other.front before)
  node place := by
    by_cases last : place = base ++ (names ++ [name])
    · subst last
      exact own.imp_right fun absent => ⟨absent, inside, _, reaches, rfl⟩
    · rw [hasDirectory, others place last]
      refine (first.node place).imp_right ?_
      rintro ⟨absent, inside, front, reaches, spelled⟩
      exact ⟨absent, inside, front, reaches.append, spelled⟩

/-- When directories were created along some names, and then one by a last name, they were created along all of them. -/
theorem append {answer : Except FileFault Unit × FileSystem} (first : Ensured files base names False (.ok (), middle))
    (same : middle.node? (base ++ (names ++ [name])) = files.node? (base ++ (names ++ [name])))
    (created : Created middle base names name path answer) :
    Ensured files base (names ++ [name]) (Pointed path) answer := by
  have isOpen : middle.Open base names := first.isOpen rfl
  have sameDirectory : middle.hasDirectory (base ++ (names ++ [name])) =
      files.hasDirectory (base ++ (names ++ [name])) := by rw [hasDirectory, same, hasDirectory]
  -- Whether the last name leads on is the same before and after the first ones did.
  have freeIff : middle.Free base (names ++ [name]) ↔ files.Free base (names ++ [name]) := by
    rw [free_append_iff isOpen.free, free_append_iff (first.done.1 rfl).free, same, sameDirectory]
  cases created with
  | there whole =>
    have inside := whole.end_inside
    exact first.reached ⟨List.prefix_rfl, freeIff.1 whole.free, fun _ _ => sameDirectory ▸ inside⟩ rfl rfl inside
      (.inl same) fun _ _ => rfl
  | @made mode _ short absent level =>
    have there := isSome_of_hasDirectory isOpen.end_inside
    have free : files.Free base (names ++ [name]) := freeIff.1 ((free_append_iff isOpen.free).2 ⟨short, .inl absent⟩)
    refine first.reached ⟨List.prefix_rfl, free, fun _ pointed => absurd pointed level⟩ rfl rfl ?_ (.inr (same ▸ absent))
      fun place other => ?_
    · rw [← List.append_assoc, hasDirectory, node?_put_self]
      rfl
    · rw [← List.append_assoc] at other
      exact node?_put_other there other
  | pointed _ short absent pointed =>
    refine first.stuck fun reaches => ?_
    have inside := reaches.level rfl pointed
    rw [hasDirectory_of_absent (same.symm.trans absent)] at inside
    cases inside
  | absent absent =>
    have inside := isOpen.end_inside
    rw [hasDirectory_of_absent absent] at inside
    cases inside
  | blocked other _ closed => exact first.stuck fun reaches => closed (freeIff.2 reaches.free)

/-- When directories could not be created along some names, they are not along more of them. -/
theorem fail {fault : FileFault} (first : Ensured files base names False (.error fault, middle)) :
    Ensured files base (names ++ [name]) pointed (.error fault, middle) := by
  refine first.stuck fun reaches => ?_
  have free := reaches.free.mono (List.prefix_append names [name])
  cases first.done.2 ⟨List.prefix_rfl, free, fun _ never => never.elim⟩

end Ensured

/-- A path leads below a base as well in files that came of others. -/
theorem Below.grows {other : FileSystem} (below : files.Below path base pieces) (grows : files.Grows other) :
    other.Below path base pieces := by
  obtain ⟨front, links, whole, run⟩ := below.run
  refine ⟨below.sound, grows.keeps.directory _ below.inside, below.level, grows.unlinked below.unlinked, front, links,
    whole, ?_⟩
  rw [grows.keeps.start]
  exact grows.keeps.runs run below.inside

/-- A path that ends in a name is not pointed. -/
theorem not_pointed_of_ended (ended : Path.Ended (Path.pieces path)) : ¬Pointed path := by
  obtain ⟨inner, last, whole, filled⟩ := ended
  obtain ⟨left, shown, kind⟩ := exists_openPieces whole filled (by simp)
  have empty : left = [] := by
    -- Nothing is behind the name, and without the slashes at its end the path has no more pieces.
    obtain ⟨empties, spelled, -⟩ := openPieces_append path
    have count := congrArg List.length spelled
    rw [whole, shown] at count
    simp only [List.length_append, List.length_cons, List.length_nil] at count
    exact List.eq_nil_of_length_eq_zero (by omega)
  subst empty
  rcases kind with ⟨-, level⟩ | ⟨more, -⟩
  · exact level
  · cases more

/-- Paths whose pieces begin alike begin at the root both or neither. -/
theorem isAbsolute_of_begins {other : String} {solid behind : List String} (spelled : Path.pieces other = solid)
    (whole : Path.pieces path = solid ++ behind) (ended : Path.Ended solid) :
    Path.isAbsolute other = Path.isAbsolute path := by
  obtain ⟨ahead, last, rfl, filled⟩ := ended
  rw [Bool.eq_iff_iff, Path.isAbsolute_iff, Path.isAbsolute_iff, spelled, whole]
  -- The first piece is empty in both or in none, and it is not the last one.
  cases ahead with
  | nil =>
    have other : last ≠ "" := by
      rintro rfl
      exact absurd filled (by decide)
    simp [other]
  | cons first more => simp

/-- A path that has the pieces of another one in front of its last name, but for void ones at their end, is below the
same base. -/
theorem Below.front {other : String} {solid gaps inner voids : List String}
    (below : files.Below path base (inner ++ name :: voids)) (whole : Path.pieces path = solid ++ gaps ++ name :: voids)
    (own : Path.pieces other = solid) (empty : ∀ piece ∈ gaps, Path.isVoid piece = true)
    (sound : pathFault? other = none) (starts : files.start other = files.start path) :
    ∃ rest, files.Below other base rest ∧ namesOf rest = namesOf inner := by
  obtain ⟨front, links, shown, run⟩ := below.run
  have split : front ++ inner = solid ++ gaps := by
    rw [whole, ← List.append_assoc] at shown
    exact (List.append_cancel_right shown).symm
  rcases List.append_eq_append_iff.1 split with ⟨rest, rfl, rfl⟩ | ⟨extra, rfl, rfl⟩
  · -- Some of the pieces behind the base are left.
    refine ⟨rest, ⟨sound, below.inside, fun member => below.level (by simp [member]), ?_, front, links, own, ?_⟩, ?_⟩
    · refine below.unlinked.mono ?_
      rw [Path.namesOf_append, Path.namesOf_append, List.append_assoc]
      exact List.prefix_append ..
    · rw [starts]
      exact run
    · rw [Path.namesOf_append, Path.namesOf_of_void empty, List.append_nil]
  · -- All of them are gone, and void ones in front of the base may be as well.
    have bare : namesOf inner = [] := Path.namesOf_of_void fun piece member =>
      empty piece (List.mem_append_right _ member)
    obtain ⟨fewer, there, first, second⟩ := run.split (Nat.zero_le _)
    obtain rfl := second.voids fun piece member => empty piece (List.mem_append_left _ member)
    refine ⟨[], ⟨sound, below.inside, List.not_mem_nil, below.unlinked.mono List.nil_prefix, solid, fewer, ?_, ?_⟩,
      bare.symm⟩
    · rw [own, List.append_nil]
    · rw [starts]
      exact first

/-- Nothing is to be done for a path without names that starts at a directory. -/
theorem ensureShape_of_void {shape : Path.Shape} (sound : pathFault? shape.path = none)
    (starts : files.start shape.path = some base) (inside : files.hasDirectory base = true)
    (bare : namesOf (Path.pieces shape.path) = []) : files.ensureShape shape = (.ok (), files) := by
  have isOpen : files.Open base (namesOf (Path.pieces shape.path)) := by
    rw [bare]
    exact open_nil inside
  have level : ".." ∉ Path.pieces shape.path := fun member => not_isVoid_up (Path.void_of_namesOf bare _ member)
  have run : files.Runs true ⟨mostLinks, files.start shape.path, Path.pieces shape.path ++ []⟩
      ⟨mostLinks, some (base ++ namesOf (Path.pieces shape.path)), []⟩ := by
    rw [starts]
    exact isOpen.runs level
  rw [List.append_nil, bare, List.append_nil] at run
  exact ensureShape_of_directory sound run inside

/-- A path without fault has none in front, if it is cut off between two pieces. -/
theorem pathFault?_of_spells {shape parent : Path.Shape} {solid behind : List String}
    (spells : shape.Spells (solid ++ behind)) (above : parent.Spells solid) (filled : parent.path ≠ "")
    (more : behind ≠ []) (sound : pathFault? shape.path = none) : pathFault? parent.path = none := by
  have text : shape.path = parent.path ++ ("/" ++ "/".intercalate behind) := by
    rw [spells.path_eq, above.path_eq, String.intercalate_append_of_ne_nil above.ne_nil more, String.append_assoc]
  exact pathFault?_of_append filled (text ▸ sound)

/-- What is above a path below a base is below it as well, or leads to the base. -/
theorem Below.parent {shape : Path.Shape} {whole : List String} (below : files.Below shape.path base pieces)
    (spells : shape.Spells whole) (plain : ∀ piece ∈ whole, '/' ∉ piece.toList)
    (named : namesOf pieces = names ++ [name]) :
    ∃ parent, shape.parent? = some parent ∧
      (names = [] ∧ files.ensureShape parent = (.ok (), files) ∨
        ∃ solid inner, parent.Spells solid ∧ (∀ piece ∈ solid, '/' ∉ piece.toList) ∧
          files.Below parent.path base inner ∧ namesOf inner = names ∧ ¬Pointed parent.path) := by
  obtain ⟨inner, voids, rfl, rfl, solid, void⟩ := Path.exists_last_name named
  have spelled := spells.pieces_eq plain
  obtain ⟨front, links, shown, run⟩ := below.run
  rw [spelled, ← List.append_assoc] at shown
  subst shown
  obtain ⟨parent, solid, gaps, found, split, empty, rest⟩ := spells.above solid void
  rw [split] at spells plain spelled
  refine ⟨parent, found, ?_⟩
  -- Without names in front of the last one, the pieces in front lead nowhere else.
  have stays : namesOf solid = [] → files.start shape.path = some base ∧ namesOf inner = [] := by
    intro bare
    have names := congrArg namesOf split
    rw [Path.namesOf_append, Path.namesOf_append, bare, Path.namesOf_of_void empty, List.append_nil,
      List.append_eq_nil_iff] at names
    exact ⟨(run.voids (Path.void_of_namesOf names.1)).symm, names.2⟩
  cases rest with
  | nothing => exact .inl ⟨(stays rfl).2, by rw [FileSystem.ensureShape.eq_def]; rfl⟩
  | root =>
    obtain ⟨starts, bare⟩ := stays (by decide)
    have absolute : Path.isAbsolute shape.path = true :=
      Path.isAbsolute_iff.2 ⟨gaps ++ name :: voids, by simp, by rw [spelled]; simp⟩
    have alike : files.start "/" = files.start shape.path := start_congr (absolute ▸ by decide)
    exact .inl ⟨bare, ensureShape_of_void (by decide) (alike.trans starts) below.inside (by decide)⟩
  | point =>
    obtain ⟨starts, bare⟩ := stays (by decide)
    have relative : Path.isAbsolute shape.path = false := by
      rw [← Bool.not_eq_true, Path.isAbsolute_iff, spelled]
      simp
    have alike : files.start "." = files.start shape.path := start_congr (relative ▸ by decide)
    exact .inl ⟨bare, ensureShape_of_void (by decide) (alike.trans starts) below.inside (by decide)⟩
  | spelled above ended =>
    have inside : ∀ piece ∈ solid, '/' ∉ piece.toList := fun piece member => plain piece (by simp [member])
    have own := above.pieces_eq inside
    have starts : files.start parent.path = files.start shape.path :=
      start_congr (isAbsolute_of_begins own (spelled.trans (List.append_assoc ..)) ended)
    have filled : parent.path ≠ "" := by
      intro empty
      -- The empty path has no name.
      obtain ⟨ahead, last, shown, filled⟩ := ended
      have lone : [] ++ [""] = ahead ++ [last] := by
        rw [← shown, ← own, empty]
        decide
      obtain ⟨-, rfl⟩ := List.append_singleton_inj.1 lone
      exact absurd filled (by decide)
    rw [List.append_assoc] at spells
    have sound := pathFault?_of_spells spells above filled (by simp) below.sound
    obtain ⟨rest, upper, same⟩ := below.front spelled own empty sound starts
    exact .inr ⟨solid, rest, above, inside, upper, same, not_pointed_of_ended (own.symm ▸ ended)⟩

/-- When something above is missing, it comes first. -/
theorem ensureShape_of_absent {shape parent : Path.Shape} (filled : ¬shape.path.isEmpty = true)
    (absent : (files.ensureDirectory shape.path).1 = .error .notFound) (above : shape.parent? = some parent) :
    files.ensureShape shape = match files.ensureShape parent with
      | (.error fault, made) => (.error fault, made)
      | (.ok (), made) => made.ensureDirectory shape.path := by
  rw [FileSystem.ensureShape.eq_def, if_neg filled]
  generalize files.ensureDirectory shape.path = answer at absent
  obtain ⟨result, after⟩ := answer
  simp only at absent
  subst absent
  simp only
  split
  · next top =>
    rw [above] at top
    cases top
  · next other found =>
    obtain rfl := Option.some.inj (above.symm.trans found)
    rfl

/-- Otherwise, nothing else is done. -/
theorem ensureShape_of_answer {shape : Path.Shape} (filled : ¬shape.path.isEmpty = true)
    (other : (files.ensureDirectory shape.path).1 ≠ .error .notFound) :
    files.ensureShape shape = files.ensureDirectory shape.path := by
  rw [FileSystem.ensureShape.eq_def, if_neg filled]
  split
  · next missing =>
    rw [missing] at other
    exact absurd rfl other
  · rfl

/-- Behind a path with a fault of its own, no directory is created. -/
theorem ensureDirectories_of_fault {fault : FileFault} (filled : path ≠ "") (unsound : pathFault? path = some fault) :
    files.ensureDirectories path = (.error fault, files) := by
  have failed : files.ensureDirectory path = (.error fault, files) := by
    simp [ensureDirectory, makeDirectory, resolveEntry, isDirectory, stat, resolve, resolvePieces, unsound]
  have spelled := Path.Shape.path_ofPath path
  have other : fault ≠ .notFound := by
    rintro rfl
    rw [pathFault?, if_neg filled] at unsound
    split at unsound
    · split at unsound
      · cases unsound
      · cases unsound
    · cases unsound
  rw [ensureDirectories, ensureShape_of_answer (by rw [spelled]; simpa using filled)
    (by rw [spelled, failed]; simpa using other), spelled, failed]

/-- Creating directories along the names of a shape's path below a base. -/
theorem ensureShape_ensured {shape : Path.Shape} {whole : List String} (below : files.Below shape.path base pieces)
    (spells : shape.Spells whole) (plain : ∀ piece ∈ whole, '/' ∉ piece.toList) :
    Ensured files base (namesOf pieces) (Pointed shape.path) (files.ensureShape shape) := by
  -- The induction is on the names, of which a parent lacks the last one.
  generalize named : namesOf pieces = names
  induction names using List.reverseRecOn generalizing shape whole pieces with
  | nil =>
    have isOpen : files.Open base (namesOf pieces) := named.symm ▸ open_nil below.inside
    obtain ⟨links, run⟩ := below.runs_of_open isOpen
    rw [ensureShape_of_directory below.sound run isOpen.end_inside]
    rw [named] at isOpen
    exact .of_open isOpen
  | append_singleton names name ih =>
    have filled : ¬shape.path.isEmpty = true := by
      intro empty
      have sound := below.sound
      rw [String.isEmpty_iff.1 empty] at sound
      exact absurd sound (by decide)
    obtain ⟨parent, found, above⟩ := below.parent spells plain named
    -- When the way is open up to the last name, nothing is to be done above.
    have settled : files.Open base names → files.ensureShape parent = (.ok (), files) := by
      intro isOpen
      rcases above with ⟨-, done⟩ | ⟨solid, inner, -, -, upper, same, -⟩
      · exact done
      · obtain ⟨links, run⟩ := upper.runs_of_open (same.symm ▸ isOpen)
        exact ensureShape_of_directory upper.sound run (same.symm ▸ isOpen).end_inside
    have created := below.created named
    generalize done : files.ensureDirectory shape.path = answer at created
    -- What is missing above comes first, and any other answer is the last.
    have missing : answer.1 = .error .notFound → files.ensureShape shape = match files.ensureShape parent with
        | (.error fault, made) => (.error fault, made)
        | (.ok (), made) => made.ensureDirectory shape.path := by
      intro absent
      exact ensureShape_of_absent filled (done ▸ absent) found
    have final : answer.1 ≠ .error .notFound → files.ensureShape shape = answer := by
      intro other
      rw [ensureShape_of_answer filled (done ▸ other), done]
    cases created with
    | there isOpen =>
      rw [final (by simp)]
      exact .of_open isOpen
    | made isOpen short absent level =>
      rw [final (by simp)]
      exact Ensured.append (.of_open isOpen) rfl (.made isOpen short absent level)
    | pointed isOpen short absent pointed =>
      -- Nothing is missing above, and behind a point it fails again.
      rw [missing rfl, settled isOpen]
      simp only [done]
      exact Ensured.append (.of_open isOpen) rfl (.pointed isOpen short absent pointed)
    | absent absent =>
      rw [missing rfl]
      rcases above with ⟨rfl, -⟩ | ⟨solid, inner, upper, inside, lower, same, level⟩
      · -- The base is not missing.
        rw [List.append_nil] at absent
        have inside := below.inside
        rw [hasDirectory_of_absent absent] at inside
        cases inside
      · have first := ih lower upper inside same
        rw [eq_false level] at first
        generalize files.ensureShape parent = above at first
        obtain ⟨result, middle⟩ := above
        cases result with
        | error fault => exact first.fail
        | ok done =>
          -- Nothing was made by the last name.
          exact first.append (first.node?_apart not_concat_prefix) ((below.grows first.grows).created named)
    | @blocked fault other made closed =>
      rw [final (by simpa using other)]
      refine .of_same ⟨fun done => (by cases done), fun reaches => absurd reaches.free closed⟩ fun front reaches => ?_
      rcases List.prefix_concat_iff.1 reaches.within with rfl | before
      · exact absurd reaches.free closed
      · exact made front before reaches.free

/-- Creating the directory of a path below a base, with what is missing above it. -/
theorem ensureDirectories_ensured (below : files.Below path base pieces) :
    Ensured files base (namesOf pieces) (Pointed path) (files.ensureDirectories path) := by
  by_cases lone : Path.pieces path = ["."]
  · -- A mere point leads to the base.
    obtain ⟨front, _, whole, -⟩ := below.run
    have bare : namesOf pieces = [] := Path.namesOf_of_void fun piece member => by
      have point : piece ∈ ["."] := lone ▸ whole.symm ▸ List.mem_append_right front member
      rw [List.mem_singleton.1 point]
      decide
    have isOpen : files.Open base (namesOf pieces) := bare.symm ▸ open_nil below.inside
    obtain ⟨links, run⟩ := below.runs_of_open isOpen
    rw [ensureDirectories_of_directory below.sound run isOpen.end_inside]
    exact .of_open isOpen
  · have plain : ∀ piece ∈ Path.pieces path, '/' ∉ piece.toList := fun piece member => Path.not_mem_of_mem_pieces member
    have same := Path.Shape.path_ofPath path
    have ensured := ensureShape_ensured (same.symm ▸ below) (Path.Shape.ofPath_spells lone) plain
    rw [same] at ensured
    exact ensured

end ConfigStore.FileSystem
