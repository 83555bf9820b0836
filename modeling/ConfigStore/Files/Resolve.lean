import ConfigStore.Files.FileSystem
import ConfigStore.Path.Basic

/-! Paths are followed through the tree name by name, through links, to the place they lead to. -/

namespace ConfigStore

/-- How many links are followed on one path. -/
def mostLinks : Nat := 40

/-- How many bytes a name may have. -/
def mostNameBytes : Nat := 255

/-- The first count of bytes that is too many for a path. -/
def pathBound : Nat := 4096

/-- Where a path leads. -/
inductive Place where
  /-- To something that is there. -/
  | found (place : Location)
  /-- To a name that is missing in a directory. -/
  | missing (directory : Location) (name : String)
  /-- To the directory in which relative paths start, which has been taken away. -/
  | lost (mode : Nat)
  deriving DecidableEq, Repr

namespace FileSystem

/-- Follows pieces of a path from the end of a way, handing over at each link that is to be followed. A link at
the end is only followed on demand. Only slashes may stand behind a name that is missing. -/
def walkPieces (files : FileSystem) (followLast : Bool) (follow : Trail → List String → Except FileFault Place) :
    Trail → List String → Except FileFault Place
  | here, [] => .ok (.found here.location)
  | here, piece :: rest =>
    let tree := here.tree files.root
    -- Whatever comes next, it is looked up in a directory.
    if !tree.node.isDirectory then .error .notDirectory
    else if Path.isVoid piece then files.walkPieces followLast follow here rest
    else if piece = ".." then files.walkPieces followLast follow here.tail rest
    else if mostNameBytes < piece.utf8ByteSize then .error .nameTooLong
    else match tree.below.tree? piece with
      -- A missing name may be created, unless more is to be looked up behind it.
      | none => if rest.all String.isEmpty then .ok (.missing here.location piece) else .error .notFound
      | some child =>
        let there : Trail := (piece, child) :: here
        match child.node with
        -- The pieces of a link come before those that are left.
        | .link target =>
          if rest.isEmpty && !followLast then .ok (.found there.location)
          else follow (if Path.isAbsolute target then [] else here) (Path.pieces target ++ rest)
        | _ => files.walkPieces followLast follow there rest

/-- Follows pieces of a path from the end of a way through at most so many links. -/
def walk (files : FileSystem) (followLast : Bool) : Nat → Trail → List String → Except FileFault Place
  | 0 => files.walkPieces followLast fun _ _ => .error .tooManyLinks
  | links + 1 => files.walkPieces followLast (files.walk followLast links)

/-- The fault of a path that cannot lead anywhere. -/
def pathFault? (path : String) : Option FileFault :=
  if path.toList.all (· != '\x00') then
    if path = "" then some .notFound
    else if pathBound ≤ path.utf8ByteSize then some .nameTooLong
    else none
  else some .nulCharacter

/-- Where pieces lead from a place. -/
def walkFrom (files : FileSystem) (followLast : Bool) (place : Location) (pieces : List String) :
    Except FileFault Place :=
  match files.root.extend? [] place with
  | none => .error .notFound
  | some trail => files.walk followLast mostLinks trail pieces

/-- Where pieces lead from a directory that has been taken away. Nothing is in it or can come into it, but it
still knows the one above. -/
def walkLost (files : FileSystem) (followLast : Bool) (mode : Nat) (pieces : List String) :
    Except FileFault Place :=
  match pieces.dropWhile Path.isVoid with
  | [] => .ok (.lost mode)
  | piece :: rest =>
    if piece = ".." then files.walkFrom followLast files.workDir.dropLast rest else .error .notFound

/-- Where the pieces of a path lead. -/
def resolvePieces (files : FileSystem) (followLast : Bool) (path : String) (pieces : List String) :
    Except FileFault Place :=
  match pathFault? path with
  | some fault => .error fault
  | none =>
    if Path.isAbsolute path then files.walk followLast mostLinks [] pieces
    else match files.lost with
      | none => files.walkFrom followLast files.workDir pieces
      | some mode => files.walkLost followLast mode pieces

/-- Where a path leads. -/
def resolve (files : FileSystem) (followLast : Bool) (path : String) : Except FileFault Place :=
  files.resolvePieces followLast path (Path.pieces path)

/-- The pieces of a path without the slashes at its end. -/
def openPieces (path : String) : List String :=
  ((Path.pieces path).reverse.dropWhile String.isEmpty).reverse

/-- Where a path leads when slashes at its end do not count and a link at its end is not followed. -/
def resolveEntry (files : FileSystem) (path : String) : Except FileFault Place :=
  files.resolvePieces false path (openPieces path)

end FileSystem

end ConfigStore
