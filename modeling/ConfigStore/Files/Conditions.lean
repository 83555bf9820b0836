import ConfigStore.Files.Fault

/-! What a program meets when it replaces a file and the tree does not tell: the name that is drawn for the temporary
file, and what goes wrong for reasons of its own. -/

namespace ConfigStore

/-- The name of a temporary file, by the letters and digits that were drawn for it. -/
structure TemporaryName where
  /-- What was drawn. -/
  drawn : List Char
  /-- These are six characters. -/
  count : drawn.length = 6
  /-- All of them are letters or digits. -/
  plain : drawn.all Char.isAlphanum = true
  deriving DecidableEq, Repr

namespace TemporaryName

instance : Inhabited TemporaryName :=
  ⟨⟨List.replicate 6 '0', by decide, by decide⟩⟩

/-- The name as a text. -/
def text (name : TemporaryName) : String :=
  ".tmp" ++ String.ofList name.drawn

end TemporaryName

/-- What goes wrong when a file is replaced. A temporary file that is given up goes all the same. -/
structure Troubles where
  /-- Why the path to be replaced is not told. That nothing is there is an answer and no trouble. -/
  locate : Option FileFault := none
  /-- Whether the link at a path cannot be read, which is then taken for none. -/
  unread : Bool := false
  /-- Why no temporary file is created. -/
  create : Option FileFault := none
  /-- How many bytes are written, and why no more of them are. -/
  fill : Option (Nat × FileFault) := none
  /-- Why what was written is not stored for good. -/
  sync : Option FileFault := none
  /-- Whether the permissions of the old file cannot be looked up, which is then taken for none. -/
  unseen : Bool := false
  /-- Why the temporary file does not get the permissions of the old one. -/
  permit : Option FileFault := none
  /-- Why the temporary file is not moved over the old one. -/
  move : Option FileFault := none
  deriving DecidableEq, Repr

/-- What the replacement of a file meets. -/
structure Conditions where
  /-- The name that is drawn for the temporary file. It is of use only where it is free. -/
  temporary : TemporaryName := default
  /-- What goes wrong. -/
  troubles : Troubles := {}
  deriving DecidableEq, Repr

/-- What a step comes to, unless there is trouble. -/
def amid {α : Type} (trouble : Option FileFault) (result : Except FileFault α) : Except FileFault α :=
  match trouble with
  | none => result
  | some fault => .error fault

end ConfigStore
