import ConfigStore.Proofs.Files.Walk

/-! Where the pieces of a path are followed to. The way to what is there and the trees along it lead to the same end as
a walk by places. -/

namespace ConfigStore

namespace Trail

/-- A way that is there, from the root on. -/
inductive Leads (root : Tree) : Trail → Prop
  /-- The way begins at the root. -/
  | root : Leads root []
  /-- The way goes on below its end. -/
  | step {here : Trail} {name : String} {child : Tree} (leads : Leads root here)
      (found : (here.tree root).below.tree? name = some child) : Leads root ((name, child) :: here)

namespace Leads

variable {root : Tree} {here : Trail}

/-- At the end of a way is its tree. -/
theorem at? (leads : here.Leads root) : root.at? here.location = some (here.tree root) := by
  -- Each step of the way is one of the tree before it.
  induction leads with
  | root => rfl
  | @step before name child _ found ih =>
    have extended : location ((name, child) :: before) = before.location ++ [name] := by simp [location]
    rw [extended, Tree.at?_append, ih, Option.bind_some, Tree.at?, found]
    rfl

/-- A shorter way is there too. -/
theorem tail (leads : here.Leads root) : Leads root here.tail := by
  cases leads with
  | root => exact .root
  | step before _ => exact before

end Leads

/-- A shorter way leads to the directory above. -/
theorem location_tail (here : Trail) : location here.tail = here.location.dropLast := by
  cases here with
  | nil => rfl
  | cons step before => simp [location]

/-- A longer way leads below. -/
@[simp] theorem location_cons (name : String) (child : Tree) (here : Trail) :
    location ((name, child) :: here) = here.location ++ [name] := by
  simp [location]

end Trail

/-- A way is extended by what is there. -/
theorem Tree.extend?_eq {root : Tree} {names : Location} {here : Trail} (leads : here.Leads root) :
    match (here.tree root).extend? here names with
    | none => root.at? (here.location ++ names) = none
    | some there => there.Leads root ∧ there.location = here.location ++ names := by
  -- The way so far leads to the tree in which the next name is looked up.
  induction names generalizing here with
  | nil => exact ⟨leads, (List.append_nil _).symm⟩
  | cons name rest ih =>
    rw [extend?]
    cases found : (here.tree root).below.tree? name with
    | none =>
      simp only
      rw [at?_append, leads.at?, Option.bind_some, at?, found]
    | some child =>
      have more := ih (leads.step found)
      rw [Trail.location_cons, List.append_assoc] at more
      exact more

/-- Nothing is where no way from the root goes. -/
theorem Tree.at?_of_extend?_none {root : Tree} {place : Location} (absent : root.extend? [] place = none) :
    root.at? place = none := by
  -- The empty way leads to the root.
  have extended := @extend?_eq root place [] .root
  have same : (Trail.tree root []).extend? [] place = none := absent
  rw [same] at extended
  exact extended

/-- A way from the root goes to its place. -/
theorem Tree.leads_of_extend? {root : Tree} {place : Location} {trail : Trail}
    (found : root.extend? [] place = some trail) : trail.Leads root ∧ trail.location = place := by
  -- The empty way leads to the root.
  have extended := @extend?_eq root place [] .root
  have same : (Trail.tree root []).extend? [] place = some trail := found
  rw [same] at extended
  exact extended

namespace FileSystem

variable {files : FileSystem} {followLast : Bool}

/-- At the end of a way is what is at its place. -/
theorem node?_location {here : Trail} (leads : here.Leads files.root) :
    files.node? here.location = some (here.tree files.root).node := by
  rw [node?, leads.at?]
  rfl

/-- Below the end of a way is what is below its place. -/
theorem node?_location_append {here : Trail} (leads : here.Leads files.root) (name : String) :
    files.node? (here.location ++ [name]) = ((here.tree files.root).below.tree? name).map Tree.node := by
  -- What is at the end of the way is the tree in which the name is looked up.
  rw [node?, Tree.at?_append, leads.at?, Option.bind_some, Tree.at?]
  cases (here.tree files.root).below.tree? name with
  | none => rfl
  | some child => rfl

/-- Handing over at a link leads where a walk with one link fewer ends. -/
def HandsOver (files : FileSystem) (followLast : Bool) :
    Nat → (Trail → List String → Except FileFault Place) → Prop
  | 0, follow => follow = fun _ _ => .error .tooManyLinks
  | fewer + 1, follow => ∀ here : Trail, here.Leads files.root → ∀ pieces,
      files.Ends followLast ⟨fewer, some here.location, pieces⟩ (follow here pieces)

section Pieces

variable {links : Nat} {follow : Trail → List String → Except FileFault Place} {here : Trail} {piece : String}
  {rest : List String}

/-- Handing over at a link is a walk. -/
theorem HandsOver.ends (follows : files.HandsOver followLast links follow) (leads : here.Leads files.root)
    (directory : files.hasDirectory here.location = true) (names : Path.Names piece)
    (short : piece.utf8ByteSize ≤ mostNameBytes) {target : String}
    (found : files.node? (here.location ++ [piece]) = some (.link target)) (followed : rest ≠ [] ∨ followLast = true) :
    files.Ends followLast ⟨links, some here.location, piece :: rest⟩
      (follow (if Path.isAbsolute target then [] else here) (Path.pieces target ++ rest)) := by
  cases links with
  | zero =>
    rw [follows]
    exact Ends.now (.spent directory names short found followed)
  | succ fewer =>
    -- The pieces of the target are walked with one link fewer.
    refine Ends.later (.link directory names short found followed) ?_
    by_cases absolute : Path.isAbsolute target = true
    · rw [if_pos absolute, if_pos absolute]
      exact follows [] .root _
    · rw [if_neg absolute, if_neg absolute]
      exact follows here leads _

/-- Following a name is a walk, if handing over at a link is, and following the pieces behind what is there. -/
theorem walkPieces_name_ends (follows : files.HandsOver followLast links follow) (leads : here.Leads files.root)
    (directory : files.hasDirectory here.location = true) (names : Path.Names piece)
    (behind : ∀ child, (here.tree files.root).below.tree? piece = some child →
      files.Ends followLast ⟨links, some (here.location ++ [piece]), rest⟩
        (files.walkPieces followLast follow ((piece, child) :: here) rest)) :
    files.Ends followLast ⟨links, some here.location, piece :: rest⟩
      (files.walkPieces followLast follow here (piece :: rest)) := by
  have below := node?_location_append leads piece
  rw [hasDirectory_of_node (node?_location leads)] at directory
  rw [walkPieces, if_neg (by simp [directory]), if_neg names.not_isVoid, if_neg names.down]
  rw [← hasDirectory_of_node (node?_location leads)] at directory
  by_cases long : mostNameBytes < piece.utf8ByteSize
  · rw [if_pos long]
    exact Ends.now (.long directory names long)
  · rw [if_neg long]
    have short := Nat.not_lt.1 long
    cases found : (here.tree files.root).below.tree? piece with
    | none =>
      rw [found, Option.map_none] at below
      by_cases closed : rest.all String.isEmpty = true
      · simp only [if_pos closed]
        exact Ends.now (.missing directory names short below closed)
      · simp only [if_neg closed]
        exact Ends.now (.absent directory names short below (by simpa using closed))
    | some child =>
      rw [found, Option.map_some] at below
      have further := behind child found
      -- Whatever is no link is walked into.
      cases kind : child.node with
      | directory mode =>
        rw [kind] at below
        simp only [kind]
        exact Ends.later (.down directory names short below (by simp)) further
      | file mode content =>
        rw [kind] at below
        simp only [kind]
        exact Ends.later (.down directory names short below (by simp)) further
      | link target =>
        rw [kind] at below
        simp only [kind]
        by_cases kept : (rest.isEmpty && !followLast) = true
        · rw [if_pos kept, Trail.location_cons]
          simp only [Bool.and_eq_true, List.isEmpty_iff, Bool.not_eq_true'] at kept
          obtain ⟨rfl, kept⟩ := kept
          exact Ends.now (.link directory names short below kept)
        · rw [if_neg kept]
          have followed : rest ≠ [] ∨ followLast = true := by
            simpa [Bool.and_eq_true, Decidable.imp_iff_not_or] using kept
          exact follows.ends leads directory names short below followed

/-- Following pieces is a walk, if handing over at a link is. -/
theorem walkPieces_ends (follows : files.HandsOver followLast links follow) (leads : here.Leads files.root)
    (pieces : List String) :
    files.Ends followLast ⟨links, some here.location, pieces⟩ (files.walkPieces followLast follow here pieces) := by
  -- Each piece is one move, and the tree at the end of the way is what is at its place.
  induction pieces generalizing here with
  | nil => exact Ends.found (by rw [node?_location leads]; rfl)
  | cons piece rest ih =>
    have there := node?_location leads
    by_cases directory : files.hasDirectory here.location = true
    · have kind := (hasDirectory_of_node there).symm.trans directory
      by_cases void : Path.isVoid piece = true
      · rw [walkPieces, if_neg (by simp [kind]), if_pos void]
        exact Ends.later (.void directory void) (ih leads)
      · by_cases up : piece = ".."
        · subst up
          rw [walkPieces, if_neg (by simp [kind]), if_neg void, if_pos rfl]
          -- The way without its last step leads to the directory above.
          have above := ih leads.tail
          rw [Trail.location_tail] at above
          exact Ends.later (.up directory) above
        · apply walkPieces_name_ends follows leads directory (.of_not_isVoid void up)
          intro child found
          have below := ih (leads.step found)
          rw [Trail.location_cons] at below
          exact below
    · have plain : (here.tree files.root).node.isDirectory = false := by
        rw [← hasDirectory_of_node there]
        simpa using directory
      rw [walkPieces, if_pos (by simp [plain])]
      exact Ends.now (.blocked there plain)

end Pieces

/-- Following pieces through so many links is a walk with as many. -/
theorem walk_ends (links : Nat) {here : Trail} (leads : here.Leads files.root) (pieces : List String) :
    files.Ends followLast ⟨links, some here.location, pieces⟩ (files.walk followLast links here pieces) := by
  -- The walk behind a link has one link fewer, and is one by induction.
  induction links generalizing here pieces with
  | zero =>
    have follows : files.HandsOver followLast 0 fun _ _ => .error .tooManyLinks := rfl
    exact walkPieces_ends follows leads pieces
  | succ fewer ih =>
    have follows : files.HandsOver followLast (fewer + 1) (files.walk followLast fewer) := fun _ leads pieces =>
      ih leads pieces
    exact walkPieces_ends follows leads pieces

/-- Where a path starts: at the root, or in the directory for relative paths unless that was taken away. -/
def start (files : FileSystem) (path : String) : Option Location :=
  if Path.isAbsolute path then some []
  else match files.lost with
    | none => some files.workDir
    | some _ => none

/-- Where a path starts depends on nothing but whether it begins at the root. -/
theorem start_congr {path other : String} (same : Path.isAbsolute other = Path.isAbsolute path) :
    files.start other = files.start path := by
  rw [start, start, same]

/-- Pieces lead from a place where a walk from there ends. -/
theorem walkFrom_ends (place : Location) (pieces : List String) :
    files.Ends followLast ⟨mostLinks, some place, pieces⟩ (files.walkFrom followLast place pieces) := by
  rw [walkFrom]
  cases found : files.root.extend? [] place with
  | none =>
    -- Nothing is at the place itself.
    have absent : files.node? place = none := by
      rw [node?, Tree.at?_of_extend?_none found, Option.map_none]
    exact Ends.now (.nowhere absent)
  | some trail =>
    obtain ⟨leads, located⟩ := Tree.leads_of_extend? found
    have whole : files.Ends followLast ⟨mostLinks, some trail.location, pieces⟩
        (files.walk followLast mostLinks trail pieces) := walk_ends mostLinks leads pieces
    rw [located] at whole
    exact whole

/-- Pieces lead from a directory that has been taken away where a walk from there ends. -/
theorem walkLost_ends {mode : Nat} (lost : files.lost = some mode) (pieces : List String) :
    files.Ends followLast ⟨mostLinks, none, pieces⟩ (files.walkLost followLast mode pieces) := by
  -- Void pieces are skipped one by one, and only a way upwards leads back into the tree.
  induction pieces with
  | nil =>
    have halts : files.Halts followLast ⟨mostLinks, none, []⟩ (.ok (.lost (files.lost.getD Node.directoryMode))) :=
      .lost
    rw [lost] at halts
    exact Ends.now halts
  | cons piece rest ih =>
    rw [walkLost]
    by_cases void : Path.isVoid piece = true
    · rw [List.dropWhile_cons_of_pos void]
      exact Ends.later (.lostVoid void) ih
    · rw [List.dropWhile_cons_of_neg void]
      by_cases up : piece = ".."
      · subst up
        simp only [if_true]
        exact Ends.later .lostUp (walkFrom_ends files.workDir.dropLast rest)
      · simp only [if_neg up]
        exact Ends.now (.lostName (.of_not_isVoid void up))

/-- The pieces of a path lead where a walk from its start ends. -/
theorem resolvePieces_ends {path : String} (sound : pathFault? path = none) (pieces : List String) :
    files.Ends followLast ⟨mostLinks, files.start path, pieces⟩ (files.resolvePieces followLast path pieces) := by
  -- A path starts at the root, in the directory for relative paths, or where that was.
  rw [resolvePieces, sound, start]
  simp only
  split
  · exact walk_ends mostLinks .root pieces
  · cases lost : files.lost with
    | none => exact walkFrom_ends files.workDir pieces
    | some mode => exact walkLost_ends lost pieces

end FileSystem

end ConfigStore
