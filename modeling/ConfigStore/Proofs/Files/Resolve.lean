import ConfigStore.Proofs.Files.Sight

/-! Where paths lead. A path that ends in a name leads below the directory that the pieces in front of the name lead
to. -/

namespace ConfigStore.FileSystem

variable {files : FileSystem} {followLast : Bool} {links : Nat} {here : Option Location}
  {front back : List String} {place : Place}

/-- A walk only comes to a place when nothing but slashes is left behind its next piece. -/
theorem all_isEmpty_of_halt {piece : String} {rest : List String}
    (halts : files.Halts followLast ⟨links, here, piece :: rest⟩ (.ok place)) : rest.all String.isEmpty = true := by
  -- Either the name is missing, or it is that of a link at the end.
  cases halts with
  | missing _ _ _ _ closed => exact closed
  | link _ _ _ _ => rfl

/-- A walk to a place comes to the end of the pieces in front if any of those behind is not empty. -/
theorem Ends.split (ends : files.Ends followLast ⟨links, here, front ++ back⟩ (.ok place))
    (filled : ∃ piece ∈ back, piece ≠ "") :
    ∃ fewer there, files.Runs true ⟨links, here, front⟩ ⟨fewer, there, []⟩ ∧
      files.Ends followLast ⟨fewer, there, back⟩ (.ok place) := by
  obtain ⟨last, run, halts⟩ := ends
  generalize start : Walk.mk links here (front ++ back) = walk at run
  induction run using Relation.ReflTransGen.head_induction_on generalizing links here front with
  | refl =>
    subst start
    cases front with
    | nil => exact ⟨links, here, .refl, Ends.now halts⟩
    | cons piece rest =>
      -- The walk would end too early.
      have blank := List.all_eq_true.1 (all_isEmpty_of_halt halts)
      obtain ⟨other, member, named⟩ := filled
      exact absurd (String.isEmpty_iff.1 (blank other (List.mem_append_right _ member))) named
  | @head walk next moves rest ih =>
    subst start
    cases front with
    | nil => exact ⟨links, here, .refl, last, .head moves rest, halts⟩
    | cons piece front =>
      obtain ⟨more, place, left, rfl, inner⟩ := moves.split
      obtain ⟨fewer, there, first, second⟩ := ih rfl
      exact ⟨fewer, there, .head inner first, second⟩

/-- A walk that is left with a name ends below the directory where it is, and a link there is not followed. -/
theorem Ends.of_name {name : String} (names : Path.Names name)
    (ends : files.Ends false ⟨links, here, [name]⟩ (.ok place)) :
    ∃ directory, here = some directory ∧ files.hasDirectory directory = true ∧ name.utf8ByteSize ≤ mostNameBytes ∧
      place = match files.node? (directory ++ [name]) with
        | none => .missing directory name
        | some _ => .found (directory ++ [name]) := by
  obtain ⟨last, run, halts⟩ := ends
  rcases run.cases with same | ⟨next, moves, rest⟩
  · subst same
    -- The name is missing, or it is that of a link.
    cases halts with
    | missing directory _ short absent _ => exact ⟨_, rfl, directory, short, by rw [absent]⟩
    | link directory _ short found _ => exact ⟨_, rfl, directory, short, by rw [found]⟩
  · cases moves with
    | lostVoid void => exact absurd void names.not_isVoid
    | lostUp => exact absurd rfl names.down
    | void _ void => exact absurd void names.not_isVoid
    | up _ => exact absurd rfl names.down
    | down directory _ short found _ =>
      -- Behind the name, nothing is left.
      rcases rest.cases with same | ⟨_, more, _⟩
      · subst same
        cases halts with
        | found _ => exact ⟨_, rfl, directory, short, by rw [found]⟩
      · cases more
    | link _ _ _ _ followed =>
      rcases followed with more | follows
      · exact absurd rfl more
      · cases follows

/-- Only a path without a fault leads anywhere. -/
theorem pathFault?_of_resolve {path : String} {pieces : List String}
    (leads : files.resolvePieces followLast path pieces = .ok place) : pathFault? path = none := by
  rw [resolvePieces] at leads
  cases fault : pathFault? path with
  | none => rfl
  | some reason => simp [fault] at leads

/-- The walk along a path ends at what the path leads to. -/
theorem ends_of_resolve {path : String} (leads : files.resolve followLast path = .ok place) :
    files.Ends followLast (files.walkOf path) (.ok place) := by
  rw [← leads]
  exact resolve_ends (pathFault?_of_resolve leads)

/-- A walk that finds a directory comes there. -/
theorem Ends.runs_found {walk : Walk} {found : Location} (ends : files.Ends true walk (.ok (.found found))) :
    ∃ links, files.Runs true walk ⟨links, some found, []⟩ := by
  obtain ⟨final, run, halts⟩ := ends
  cases halts with
  | found _ => exact ⟨_, run⟩
  | link _ _ _ _ kept => cases kept

/-- A path that starts in a directory that is there does not lead to one that was taken away. -/
theorem resolve_ne_lost {path : String} (reachable : Path.isAbsolute path = true ∨ files.lost = none) (mode : Nat) :
    files.resolve followLast path ≠ .ok (.lost mode) := by
  intro leads
  obtain ⟨start, starts⟩ : ∃ start, files.start path = some start := by
    rw [start]
    rcases reachable with absolute | kept
    · exact ⟨[], if_pos absolute⟩
    · rw [kept]
      split <;> exact ⟨_, rfl⟩
  -- A walk in the tree stays there.
  obtain ⟨final, run, halts⟩ := ends_of_resolve leads
  obtain ⟨other, inside⟩ := run.inside starts
  cases halts with
  | lost => cases inside

/-- What is in front in a path without a fault has none of its own, unless it is empty. -/
theorem pathFault?_of_append {front back : String} (filled : front ≠ "") (sound : pathFault? (front ++ back) = none) :
    pathFault? front = none := by
  -- What is behind makes the path longer and leaves its characters.
  rw [pathFault?] at sound
  rw [pathFault?]
  split at sound
  · next clean =>
    rw [String.toList_append, List.all_append, Bool.and_eq_true] at clean
    split at sound
    · cases sound
    · split at sound
      · cases sound
      · next short =>
        rw [String.utf8ByteSize_append] at short
        rw [if_pos clean.1, if_neg filled, if_neg (by omega)]
  · cases sound

/-- A path that ends in a name, and the directory to which the pieces in front of the name lead. -/
structure Entry (files : FileSystem) (path : String) (directory : Location) (name : String) : Prop where
  /-- The name names something. -/
  names : Path.Names name
  /-- The name is not too long. -/
  short : name.utf8ByteSize ≤ mostNameBytes
  /-- The directory is there. -/
  inside : files.hasDirectory directory = true
  /-- A walk along the pieces in front of the name ends in the directory. -/
  run : ∃ front links, Path.pieces path = front ++ [name] ∧
    files.Runs true ⟨mostLinks, files.start path, front⟩ ⟨links, some directory, []⟩

section Entry

variable {path name last : String} {directory location : Location}

/-- A walk along such a path comes by the name in the directory. -/
theorem Entry.runs (entry : files.Entry path directory name) :
    ∃ links, files.Runs true ⟨mostLinks, files.start path, Path.pieces path⟩ ⟨links, some directory, [name]⟩ := by
  -- Behind the pieces in front of the name, the name is left.
  obtain ⟨front, links, whole, run⟩ := entry.run
  rw [whole]
  exact ⟨links, run.append (.inr rfl)⟩

/-- Such a path leads to what is by its name, unless that is a link to be followed. -/
theorem Entry.resolve (entry : files.Entry path directory name) (sound : pathFault? path = none)
    (stays : followLast = false ∨ ∀ target, files.node? (directory ++ [name]) ≠ some (.link target)) :
    files.resolve followLast path = .ok (match files.node? (directory ++ [name]) with
      | none => .missing directory name
      | some _ => .found (directory ++ [name])) := by
  obtain ⟨names, short, inside, front, links, whole, run⟩ := entry
  have walked : files.Runs followLast ⟨mostLinks, files.start path, Path.pieces path⟩ ⟨links, some directory, [name]⟩ := by
    rw [whole]
    exact run.append (.inl (List.cons_ne_nil _ _))
  -- From the directory, the name is the only piece that is left.
  suffices ends : files.Ends followLast ⟨links, some directory, [name]⟩
      (.ok (match files.node? (directory ++ [name]) with
        | none => .missing directory name
        | some _ => .found (directory ++ [name]))) by
    obtain ⟨last, more, halts⟩ := ends
    exact (resolvePieces_ends sound _).unique ⟨last, walked.trans more, halts⟩
  have further : ∀ node, files.node? (directory ++ [name]) = some node → (∀ target, node ≠ .link target) →
      files.Ends followLast ⟨links, some directory, [name]⟩ (.ok (.found (directory ++ [name]))) :=
    fun node found solid => Ends.later (.down inside names short found solid) (Ends.found (by rw [found]; rfl))
  cases found : files.node? (directory ++ [name]) with
  | none => exact Ends.now (.missing inside names short found rfl)
  | some node =>
    cases node with
    | directory mode => exact further _ found (by simp)
    | file mode content => exact further _ found (by simp)
    | link target =>
      rcases stays with kept | solid
      · exact Ends.now (.link inside names short found kept)
      · exact absurd found (solid target)

/-- A path that ends in a name leads to what is by the name, if a link at its end is not followed. -/
theorem exists_entry (whole : Path.pieces path = front ++ [name]) (names : Path.Names name)
    (leads : files.resolve false path = .ok place) :
    ∃ directory, files.Entry path directory name ∧
      place = match files.node? (directory ++ [name]) with
        | none => .missing directory name
        | some _ => .found (directory ++ [name]) := by
  -- The last piece names something, so the walk comes to the end of those in front.
  rw [resolve, whole] at leads
  have ends : files.Ends false ⟨mostLinks, files.start path, front ++ [name]⟩ (.ok place) :=
    leads ▸ resolvePieces_ends (pathFault?_of_resolve leads) (front ++ [name])
  obtain ⟨fewer, there, run, rest⟩ := ends.split ⟨name, List.mem_singleton_self name, names.ne_empty⟩
  obtain ⟨directory, rfl, inside, short, same⟩ := rest.of_name names
  exact ⟨directory, ⟨names, short, inside, front, fewer, whole, run⟩, same⟩

/-- What is missing for such a path is its name, by which nothing is. -/
theorem entry_of_missing (whole : Path.pieces path = front ++ [name]) (names : Path.Names name)
    (leads : files.resolve false path = .ok (.missing directory last)) :
    last = name ∧ files.Entry path directory name ∧ files.node? (directory ++ [name]) = none := by
  -- Were something by the name, it would have been found.
  obtain ⟨inside, entry, same⟩ := exists_entry whole names leads
  cases found : files.node? (inside ++ [name]) with
  | some node =>
    rw [found] at same
    cases same
  | none =>
    rw [found] at same
    obtain ⟨rfl, rfl⟩ := Place.missing.inj same
    exact ⟨rfl, entry, found⟩

/-- What such a path leads to is what is by its name. -/
theorem entry_of_found (whole : Path.pieces path = front ++ [name]) (names : Path.Names name)
    (leads : files.resolve false path = .ok (.found location)) :
    ∃ directory, location = directory ++ [name] ∧ files.Entry path directory name := by
  -- Were nothing by the name, it would be missing.
  obtain ⟨directory, entry, same⟩ := exists_entry whole names leads
  cases found : files.node? (directory ++ [name]) with
  | none =>
    rw [found] at same
    cases same
  | some node =>
    rw [found] at same
    exact ⟨directory, Place.found.inj same, entry⟩

end Entry

end ConfigStore.FileSystem
