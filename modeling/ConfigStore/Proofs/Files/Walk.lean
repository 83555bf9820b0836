import Mathlib.Logic.Relation
import ConfigStore.Proofs.Files.Tree
import ConfigStore.Proofs.Path.Pieces

/-! Following a path, piece by piece. A walk knows where it is and which pieces are left. It goes on by what is at one
place and below one name there, and it goes on or ends in one way only. -/

namespace ConfigStore

/-- A walk on its way. -/
structure Walk where
  /-- How many more links it may follow. -/
  links : Nat
  /-- Where it is, or nothing in a directory that has been taken away. -/
  here : Option Location
  /-- The pieces that are left. -/
  pieces : List String

namespace FileSystem

section Ways

variable (files : FileSystem) (followLast : Bool)

/-- The ways in which a walk goes on. -/
inductive Moves : Walk → Walk → Prop
  /-- A void piece is passed over in a directory that has been taken away. -/
  | lostVoid {links : Nat} {piece : String} {rest : List String} (void : Path.isVoid piece = true) :
    Moves ⟨links, none, piece :: rest⟩ ⟨links, none, rest⟩
  /-- A directory that has been taken away still knows the one above. -/
  | lostUp {links : Nat} {rest : List String} :
    Moves ⟨links, none, ".." :: rest⟩ ⟨links, some files.workDir.dropLast, rest⟩
  /-- A void piece is passed over in a directory. -/
  | void {links : Nat} {here : Location} {piece : String} {rest : List String}
    (directory : files.hasDirectory here = true) (void : Path.isVoid piece = true) :
    Moves ⟨links, some here, piece :: rest⟩ ⟨links, some here, rest⟩
  /-- Two points lead to the directory above. -/
  | up {links : Nat} {here : Location} {rest : List String} (directory : files.hasDirectory here = true) :
    Moves ⟨links, some here, ".." :: rest⟩ ⟨links, some here.dropLast, rest⟩
  /-- A name leads to what is there. -/
  | down {links : Nat} {here : Location} {piece : String} {rest : List String} {node : Node}
    (directory : files.hasDirectory here = true) (names : Path.Names piece)
    (short : piece.utf8ByteSize ≤ mostNameBytes) (found : files.node? (here ++ [piece]) = some node)
    (solid : ∀ target, node ≠ .link target) :
    Moves ⟨links, some here, piece :: rest⟩ ⟨links, some (here ++ [piece]), rest⟩
  /-- A link is followed at the cost of one. -/
  | link {links : Nat} {here : Location} {piece target : String} {rest : List String}
    (directory : files.hasDirectory here = true) (names : Path.Names piece)
    (short : piece.utf8ByteSize ≤ mostNameBytes) (found : files.node? (here ++ [piece]) = some (.link target))
    (followed : rest ≠ [] ∨ followLast = true) :
    Moves ⟨links + 1, some here, piece :: rest⟩
      ⟨links, some (if Path.isAbsolute target then [] else here), Path.pieces target ++ rest⟩

/-- The ways in which a walk ends. -/
inductive Halts : Walk → Except FileFault Place → Prop
  /-- The directory that has been taken away is where the walk ends. -/
  | lost {links : Nat} : Halts ⟨links, none, []⟩ (.ok (.lost (files.lost.getD Node.directoryMode)))
  /-- Nothing is in a directory that has been taken away. -/
  | lostName {links : Nat} {piece : String} {rest : List String} (names : Path.Names piece) :
    Halts ⟨links, none, piece :: rest⟩ (.error .notFound)
  /-- The walk is at nothing. -/
  | nowhere {links : Nat} {here : Location} {pieces : List String} (absent : files.node? here = none) :
    Halts ⟨links, some here, pieces⟩ (.error .notFound)
  /-- No pieces are left. -/
  | found {links : Nat} {here : Location} (there : (files.node? here).isSome) :
    Halts ⟨links, some here, []⟩ (.ok (.found here))
  /-- Pieces are left behind what is no directory. -/
  | blocked {links : Nat} {here : Location} {piece : String} {rest : List String} {node : Node}
    (there : files.node? here = some node) (plain : node.isDirectory = false) :
    Halts ⟨links, some here, piece :: rest⟩ (.error .notDirectory)
  /-- A name is too long. -/
  | long {links : Nat} {here : Location} {piece : String} {rest : List String}
    (directory : files.hasDirectory here = true) (names : Path.Names piece)
    (long : mostNameBytes < piece.utf8ByteSize) :
    Halts ⟨links, some here, piece :: rest⟩ (.error .nameTooLong)
  /-- A name is missing, and nothing but slashes is behind it. -/
  | missing {links : Nat} {here : Location} {piece : String} {rest : List String}
    (directory : files.hasDirectory here = true) (names : Path.Names piece)
    (short : piece.utf8ByteSize ≤ mostNameBytes) (absent : files.node? (here ++ [piece]) = none)
    (closed : rest.all String.isEmpty = true) :
    Halts ⟨links, some here, piece :: rest⟩ (.ok (.missing here piece))
  /-- A name is missing, and more is behind it. -/
  | absent {links : Nat} {here : Location} {piece : String} {rest : List String}
    (directory : files.hasDirectory here = true) (names : Path.Names piece)
    (short : piece.utf8ByteSize ≤ mostNameBytes) (absent : files.node? (here ++ [piece]) = none)
    (more : rest.all String.isEmpty = false) :
    Halts ⟨links, some here, piece :: rest⟩ (.error .notFound)
  /-- A link at the end is not followed. -/
  | link {links : Nat} {here : Location} {piece target : String}
    (directory : files.hasDirectory here = true) (names : Path.Names piece)
    (short : piece.utf8ByteSize ≤ mostNameBytes) (found : files.node? (here ++ [piece]) = some (.link target))
    (kept : followLast = false) :
    Halts ⟨links, some here, [piece]⟩ (.ok (.found (here ++ [piece])))
  /-- No more links may be followed. -/
  | spent {here : Location} {piece target : String} {rest : List String}
    (directory : files.hasDirectory here = true) (names : Path.Names piece)
    (short : piece.utf8ByteSize ≤ mostNameBytes) (found : files.node? (here ++ [piece]) = some (.link target))
    (followed : rest ≠ [] ∨ followLast = true) :
    Halts ⟨0, some here, piece :: rest⟩ (.error .tooManyLinks)

/-- A walk comes to be another by moves. -/
abbrev Runs : Walk → Walk → Prop :=
  Relation.ReflTransGen (files.Moves followLast)

/-- A walk comes to an end. -/
def Ends (walk : Walk) (result : Except FileFault Place) : Prop :=
  ∃ last, files.Runs followLast walk last ∧ files.Halts followLast last result

end Ways

/-- A directory is something that is there. -/
theorem hasDirectory_iff {files : FileSystem} {place : Location} :
    files.hasDirectory place = true ↔ ∃ mode, files.node? place = some (.directory mode) := by
  -- Of the three kinds of things, only one is a directory.
  rw [hasDirectory]
  cases found : files.node? place with
  | none => simp
  | some node => cases node <;> simp [Node.isDirectory]

/-- A directory is there. -/
theorem isSome_of_hasDirectory {files : FileSystem} {place : Location} (directory : files.hasDirectory place = true) :
    (files.node? place).isSome := by
  obtain ⟨mode, found⟩ := hasDirectory_iff.1 directory
  rw [found]
  rfl

/-- Nothing is no directory. -/
theorem hasDirectory_of_absent {files : FileSystem} {place : Location} (absent : files.node? place = none) :
    files.hasDirectory place = false := by
  rw [hasDirectory, absent]
  rfl

/-- Something is a directory if its kind is. -/
theorem hasDirectory_of_node {files : FileSystem} {place : Location} {node : Node}
    (there : files.node? place = some node) : files.hasDirectory place = node.isDirectory := by
  rw [hasDirectory, there, Option.any_some]

/-- Two points are no void piece. -/
theorem not_isVoid_up : ¬Path.isVoid ".." = true := by decide

section Unique

/-! What comes next is a matter of the walk alone. -/

/-- What comes next on a walk. -/
inductive Stride where
  /-- The walk goes on. -/
  | go (next : Walk)
  /-- The walk is at its end. -/
  | halt (result : Except FileFault Place)

/-- What comes next by a name, given what is there. -/
def strideInto (followLast : Bool) (links : Nat) (here : Location) (piece : String) (rest : List String) :
    Option Node → Stride
  | none => if rest.all String.isEmpty then .halt (.ok (.missing here piece)) else .halt (.error .notFound)
  | some (.link target) =>
    if rest.isEmpty && !followLast then .halt (.ok (.found (here ++ [piece])))
    else match links with
      | 0 => .halt (.error .tooManyLinks)
      | links + 1 => .go ⟨links, some (if Path.isAbsolute target then [] else here), Path.pieces target ++ rest⟩
  | some _ => .go ⟨links, some (here ++ [piece]), rest⟩

/-- What comes next from a directory, which a piece leaves as it is, leads out of, or leads below. -/
def strideFrom (files : FileSystem) (followLast : Bool) (links : Nat) (here : Location) (piece : String)
    (rest : List String) : Stride :=
  if Path.isVoid piece then .go ⟨links, some here, rest⟩
  else if piece = ".." then .go ⟨links, some here.dropLast, rest⟩
  else if mostNameBytes < piece.utf8ByteSize then .halt (.error .nameTooLong)
  else strideInto followLast links here piece rest (files.node? (here ++ [piece]))

/-- What comes next. -/
def stride (files : FileSystem) (followLast : Bool) : Walk → Stride
  | ⟨_, none, []⟩ => .halt (.ok (.lost (files.lost.getD Node.directoryMode)))
  | ⟨links, none, piece :: rest⟩ =>
    if Path.isVoid piece then .go ⟨links, none, rest⟩
    else if piece = ".." then .go ⟨links, some files.workDir.dropLast, rest⟩
    else .halt (.error .notFound)
  | ⟨links, some here, pieces⟩ =>
    match files.node? here, pieces with
    | none, _ => .halt (.error .notFound)
    | some _, [] => .halt (.ok (.found here))
    | some node, piece :: rest =>
      if node.isDirectory then files.strideFrom followLast links here piece rest else .halt (.error .notDirectory)

variable {files : FileSystem} {followLast : Bool} {here : Location} {piece : String}

/-- From a directory, the piece decides. -/
theorem stride_of_directory (directory : files.hasDirectory here = true) (links : Nat) (piece : String)
    (rest : List String) :
    files.stride followLast ⟨links, some here, piece :: rest⟩ =
      files.strideFrom followLast links here piece rest := by
  obtain ⟨mode, found⟩ := hasDirectory_iff.1 directory
  simp only [stride, found, Node.isDirectory, if_true]

/-- From a directory by a name, what is there decides. -/
theorem stride_of_names (directory : files.hasDirectory here = true) (names : Path.Names piece)
    (short : piece.utf8ByteSize ≤ mostNameBytes) (links : Nat) (rest : List String) :
    files.stride followLast ⟨links, some here, piece :: rest⟩ =
      strideInto followLast links here piece rest (files.node? (here ++ [piece])) := by
  rw [stride_of_directory directory, strideFrom, if_neg names.not_isVoid, if_neg names.down,
    if_neg (Nat.not_lt.2 short)]

/-- A link is followed unless it is at the end and kept. -/
theorem not_kept {rest : List String} (followed : rest ≠ [] ∨ followLast = true) :
    ¬(rest.isEmpty && !followLast) = true := by
  simpa [Bool.and_eq_true, Decidable.imp_iff_not_or] using followed

/-- A move is what comes next. -/
theorem Moves.stride {walk next : Walk} (moves : files.Moves followLast walk next) :
    files.stride followLast walk = .go next := by
  -- Each way of going on has the conditions under which it comes next.
  cases moves with
  | lostVoid void => rw [FileSystem.stride, if_pos void]
  | lostUp => rw [FileSystem.stride, if_neg not_isVoid_up, if_pos rfl]
  | void directory void => rw [stride_of_directory directory, strideFrom, if_pos void]
  | up directory => rw [stride_of_directory directory, strideFrom, if_neg not_isVoid_up, if_pos rfl]
  | @down _ _ _ _ node directory names short found solid =>
    rw [stride_of_names directory names short, found]
    -- Only links lead elsewhere.
    cases node with
    | directory mode => rfl
    | file mode content => rfl
    | link target => exact absurd rfl (solid target)
  | link directory names short found followed =>
    rw [stride_of_names directory names short, found, strideInto, if_neg (not_kept followed)]

/-- An end is what comes next. -/
theorem Halts.stride {walk : Walk} {result : Except FileFault Place} (halts : files.Halts followLast walk result) :
    files.stride followLast walk = .halt result := by
  -- Each way of ending has the conditions under which nothing comes next.
  cases halts with
  | lost => rfl
  | lostName names => rw [FileSystem.stride, if_neg names.not_isVoid, if_neg names.down]
  | nowhere absent => simp only [FileSystem.stride, absent]
  | found there =>
    obtain ⟨node, found⟩ := Option.isSome_iff_exists.1 there
    simp only [FileSystem.stride, found]
  | blocked there plain => simp [FileSystem.stride, there, plain]
  | long directory names long =>
    rw [stride_of_directory directory, strideFrom, if_neg names.not_isVoid, if_neg names.down, if_pos long]
  | missing directory names short absent closed =>
    rw [stride_of_names directory names short, absent, strideInto, if_pos closed]
  | absent directory names short absent more =>
    rw [stride_of_names directory names short, absent, strideInto, if_neg (by simp [more])]
  | link directory names short found kept =>
    rw [stride_of_names directory names short, found]
    simp [strideInto, kept]
  | spent directory names short found followed =>
    rw [stride_of_names directory names short, found, strideInto, if_neg (not_kept followed)]

/-- A walk goes on in one way only. -/
theorem Moves.unique {walk next other : Walk} (moves : files.Moves followLast walk next)
    (again : files.Moves followLast walk other) : next = other := by
  -- Both are what comes next.
  have same := moves.stride.symm.trans again.stride
  cases same
  rfl

/-- A walk that goes on is not at its end. -/
theorem Moves.not_halts {walk next : Walk} {result : Except FileFault Place}
    (moves : files.Moves followLast walk next) : ¬files.Halts followLast walk result := by
  -- Either something comes next or nothing does.
  intro halts
  have same := moves.stride.symm.trans halts.stride
  cases same

/-- A walk that is at its end has come to one result. -/
theorem Halts.unique {walk : Walk} {result other : Except FileFault Place}
    (halts : files.Halts followLast walk result) (again : files.Halts followLast walk other) : result = other := by
  -- Both are what comes next.
  have same := halts.stride.symm.trans again.stride
  cases same
  rfl

end Unique

variable {files : FileSystem} {followLast : Bool} {walk next last : Walk} {result other : Except FileFault Place}

/-- A run has no moves or begins with one. -/
theorem Runs.cases (run : files.Runs followLast walk last) :
    walk = last ∨ ∃ next, files.Moves followLast walk next ∧ files.Runs followLast next last :=
  (Relation.ReflTransGen.cases_head run).imp_left id

/-- A walk that runs to an end passes through whatever it comes to be. -/
theorem Runs.through (run : files.Runs followLast walk next) (whole : files.Runs followLast walk last)
    (halts : files.Halts followLast last result) : files.Runs followLast next last := by
  -- Every move is the only one, so both runs begin alike.
  induction run using Relation.ReflTransGen.head_induction_on with
  | refl => exact whole
  | head moves _ ih =>
    apply ih
    rcases whole.cases with same | ⟨second, first, rest⟩
    · subst same
      exact absurd halts moves.not_halts
    · obtain rfl := moves.unique first
      exact rest

namespace Ends

/-- A walk that halts is at its end. -/
theorem now (halts : files.Halts followLast walk result) : files.Ends followLast walk result :=
  ⟨walk, .refl, halts⟩

/-- A walk that goes on ends as it does from there. -/
theorem later (moves : files.Moves followLast walk next) (ends : files.Ends followLast next result) :
    files.Ends followLast walk result := by
  obtain ⟨last, run, halts⟩ := ends
  exact ⟨last, .head moves run, halts⟩

/-- Whatever a walk comes to be ends as the walk does. -/
theorem of_runs (ends : files.Ends followLast walk result) (run : files.Runs followLast walk next) :
    files.Ends followLast next result := by
  obtain ⟨last, whole, halts⟩ := ends
  exact ⟨last, run.through whole halts, halts⟩

/-- A walk ends in one way only. -/
theorem unique (ends : files.Ends followLast walk result) (again : files.Ends followLast walk other) :
    result = other := by
  obtain ⟨last, run, halts⟩ := again
  obtain ⟨final, rest, stops⟩ := ends.of_runs run
  -- There is no move behind the last one.
  rcases rest.cases with same | ⟨next, moves, _⟩
  · subst same
    exact stops.unique halts
  · exact absurd halts moves.not_halts

/-- A walk ends where no pieces are left. -/
theorem found {place : Location} {links : Nat} (there : (files.node? place).isSome) :
    files.Ends followLast ⟨links, some place, []⟩ (.ok (.found place)) :=
  now (.found there)

end Ends

end FileSystem

end ConfigStore
