import ConfigStore.Files.Fault
import ConfigStore.Files.Forest

/-! A file system is a tree of directories, files and links, where each thing is found by the names that lead
to it from the root. Only names that are texts are found, so a tree with other names is left out. -/

namespace ConfigStore

/-- The tree below a root, and the directory from which relative paths start. -/
structure FileSystem where
  /-- The root with everything in it. -/
  root : Tree := .directory
  /-- Where relative paths start. -/
  workDir : Location := []
  /-- The permissions of the directory in which relative paths start, once it has been taken away. -/
  lost : Option Nat := none
  deriving DecidableEq, Repr

namespace FileSystem

/-- What is at a place. -/
def node? (files : FileSystem) (place : Location) : Option Node :=
  (files.root.at? place).map (·.node)

/-- Whether a directory is at a place. -/
def hasDirectory (files : FileSystem) (place : Location) : Bool :=
  (files.node? place).any Node.isDirectory

/-- The permissions of a new directory in the one at a place. -/
def newDirectoryMode (files : FileSystem) (place : Location) : Nat :=
  match files.node? place with
  | some node => Node.directoryModeIn node.mode
  | none => Node.directoryMode

/-- Puts something at a place, over what is there. -/
def put (files : FileSystem) (place : Location) (node : Node) : FileSystem :=
  { files with root := files.root.put node place }

/-- Takes away what is at a place, with everything below it. -/
def erase (files : FileSystem) (place : Location) : FileSystem :=
  { files with root := files.root.erase place }

/-- What is below a place, with the names that lead there from it. -/
def below (files : FileSystem) (place : Location) : List (Location × Node) :=
  match files.root.at? place with
  | none => []
  | some tree => tree.below.nodes

/-- Takes away what is at a place, with everything below it. If relative paths start there, they still start in
that directory, even when there is another one at the same place later. -/
def takeAway (files : FileSystem) (place : Location) : FileSystem :=
  let left := files.erase place
  match place.isPrefixOf files.workDir, files.lost, files.node? files.workDir with
  | true, none, some node => { left with lost := some node.mode }
  | _, _, _ => left

end FileSystem

end ConfigStore
