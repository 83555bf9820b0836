/-! Directories hold named files, links and directories, which are trees side by side: a forest. Names and the targets of
links are texts, so those whose bytes are not UTF-8 are left out. -/

namespace ConfigStore

/-- The names from the root to a place in the tree. -/
abbrev Location := List String

/-- What may be at a place in the tree. -/
inductive Node where
  /-- A directory and its permissions. -/
  | directory (mode : Nat)
  /-- A file, its permissions and its bytes. -/
  | file (mode : Nat) (content : List UInt8)
  /-- A link and the path that it leads to. -/
  | link (target : String)
  deriving DecidableEq, Repr

namespace Node

/-- The permissions of a new directory. -/
def directoryMode : Nat := 0o755

/-- The permissions of a new file. -/
def fileMode : Nat := 0o644

/-- The permissions of links, which nobody asks for. -/
def linkMode : Nat := 0o777

/-- The permissions of what is at a place. -/
def mode : Node → Nat
  | .directory mode => mode
  | .file mode _ => mode
  | .link _ => linkMode

/-- Whether permissions hand the group of a directory down to what is created in it. -/
def sharesGroup (mode : Nat) : Bool :=
  mode.testBit 10

/-- The permissions of a new directory in one with some permissions, which hands its group down if that one
does. -/
def directoryModeIn (mode : Nat) : Nat :=
  if sharesGroup mode then 0o2755 else directoryMode

/-- What is at a place with other permissions. -/
def withMode (mode : Nat) : Node → Node
  | .directory _ => .directory mode
  | .file _ content => .file mode content
  | .link target => .link target

/-- Whether a directory is at a place. -/
def isDirectory : Node → Bool
  | .directory _ => true
  | _ => false

end Node

/-- The trees in a directory, in the order in which they came. -/
inductive Forest where
  /-- No trees. -/
  | empty
  /-- A tree by its name, what it is, and what is below it, before the other trees. -/
  | named (name : String) (node : Node) (below others : Forest)
  deriving DecidableEq, Repr

/-- What is at a place, with everything below it. -/
structure Tree where
  /-- What is at the place. -/
  node : Node
  /-- What is below it. -/
  below : Forest := .empty
  deriving DecidableEq, Repr

namespace Forest

/-- The tree of a name. -/
def tree? (name : String) : Forest → Option Tree
  | .empty => none
  | .named other node below others => if other = name then some ⟨node, below⟩ else others.tree? name

/-- Changes the tree of a name, adds one behind the others, or takes it away. -/
def alter (name : String) (change : Option Tree → Option Tree) : Forest → Forest
  | .empty =>
    match change none with
    | none => .empty
    | some tree => .named name tree.node tree.below .empty
  | .named other node below others =>
    if other = name then
      match change (some ⟨node, below⟩) with
      | none => others
      | some tree => .named name tree.node tree.below others
    else .named other node below (others.alter name change)

/-- Everything in a forest, each thing behind what is above it, with the names that lead to it. -/
def nodes : Forest → List (Location × Node)
  | .empty => []
  | .named name node below others =>
    ([name], node) :: below.nodes.map (fun (names, node) => (name :: names, node)) ++ others.nodes

end Forest

/-- The names and trees on the way from the root to a place, the last one first. -/
abbrev Trail := List (String × Tree)

namespace Tree

/-- An empty directory. -/
def directory : Tree :=
  ⟨.directory Node.directoryMode, .empty⟩

/-- The tree at a place below. -/
def at? (tree : Tree) : Location → Option Tree
  | [] => some tree
  | name :: names =>
    match tree.below.tree? name with
    | none => none
    | some child => child.at? names

/-- Extends the way to a tree by some names. -/
def extend? (tree : Tree) (trail : Trail) : Location → Option Trail
  | [] => some trail
  | name :: names =>
    match tree.below.tree? name with
    | none => none
    | some child => child.extend? ((name, child) :: trail) names

/-- Puts something at a place below, over what is there. Directories are added on the way as needed. -/
def put (new : Node) (tree : Tree) : Location → Tree
  | [] => { tree with node := new }
  | name :: names =>
    { tree with below := tree.below.alter name fun found => some (put new (found.getD directory) names) }

/-- Takes away what is at a place below, with everything below that. -/
def erase (tree : Tree) : Location → Tree
  | [] => tree
  | [name] => { tree with below := tree.below.alter name fun _ => none }
  | name :: names => { tree with below := tree.below.alter name fun found => found.map (erase · names) }

end Tree

namespace Trail

/-- The names on the way. -/
def location (trail : Trail) : Location :=
  (trail.map (·.1)).reverse

/-- The tree at the end of the way from a root. -/
def tree (root : Tree) : Trail → Tree
  | [] => root
  | (_, tree) :: _ => tree

end Trail

end ConfigStore
