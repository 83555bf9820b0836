import ConfigStore.Files.Resolve

/-! The absolute path without links to what a path leads to. It is built name by name, and each name is looked
up by the path built so far, so that no more than that path has to be short. -/

namespace ConfigStore

/-- The absolute path of a place. -/
def placePath (place : Location) : String :=
  "/" ++ "/".intercalate place

/-- How many bytes the absolute path of a name at the end of a way has. -/
def Trail.pathBytes (here : Trail) (name : String) : Nat :=
  here.foldl (fun bytes step => bytes + 1 + step.1.utf8ByteSize) (1 + name.utf8ByteSize)

namespace FileSystem

/-- A path as an absolute one, unless it starts in a directory that has been taken away. -/
def absolute? (files : FileSystem) (path : String) : Option String :=
  if Path.isAbsolute path then some path
  else if files.lost.isSome then none
  else some (Path.join (placePath files.workDir) path)

/-- The tree of a name at the end of a way, looked up by its absolute path. -/
def lookUp (files : FileSystem) (here : Trail) (name : String) : Except FileFault Tree :=
  let tree := here.tree files.root
  -- The path is refused as a whole before any of it is looked at.
  if pathBound ≤ here.pathBytes name then .error .nameTooLong
  else if !tree.node.isDirectory then .error .notDirectory
  else if mostNameBytes < name.utf8ByteSize then .error .nameTooLong
  else match tree.below.tree? name with
    | some child => .ok child
    | none => .error .notFound

/-- Whether pieces only make sense behind a directory: nothing but slashes and points, or a way upwards. -/
def needDirectory (rest : List String) : Bool :=
  match rest.dropWhile Path.isVoid with
  | [] => !rest.isEmpty
  | next :: _ => next == ".."

/-- Follows pieces of a path from the end of a way without links, handing over at each link. -/
def canonicalPieces (files : FileSystem) (follow : Trail → List String → Except FileFault Location) :
    Trail → List String → Except FileFault Location
  | here, [] => .ok here.location
  | here, piece :: rest =>
    -- These need no look, since a name before them was checked to be a directory.
    if Path.isVoid piece then files.canonicalPieces follow here rest
    else if piece = ".." then files.canonicalPieces follow here.tail rest
    else match files.lookUp here piece with
      | .error fault => .error fault
      | .ok child =>
        match child.node with
        -- The pieces of a link come before those that are left.
        | .link target => follow (if Path.isAbsolute target then [] else here) (Path.pieces target ++ rest)
        | node =>
          if needDirectory rest && !node.isDirectory then .error .notDirectory
          else files.canonicalPieces follow ((piece, child) :: here) rest

/-- Follows pieces of a path from the end of a way without links through at most so many links. -/
def canonicalPlace (files : FileSystem) : Nat → Trail → List String → Except FileFault Location
  | 0 => files.canonicalPieces fun _ _ => .error .tooManyLinks
  | links + 1 => files.canonicalPieces (files.canonicalPlace links)

/-- The way to the directory in which a path starts, whose own path is lost when it is taken away. -/
def start? (files : FileSystem) (path : String) : Option Trail :=
  if Path.isAbsolute path then some []
  else if files.lost.isSome then none
  else files.root.extend? [] files.workDir

/-- The absolute path without links to what a path leads to. -/
def canonical (files : FileSystem) (path : String) : Except FileFault String :=
  if path.toList.all (· != '\x00') then
    if path = "" then .error .notFound
    else match files.start? path with
      | none => .error .notFound
      | some trail => (files.canonicalPlace mostLinks trail (Path.pieces path)).map placePath
  else .error .nulCharacter

end FileSystem

end ConfigStore
