import ConfigStore.Files.Canonical
import ConfigStore.Files.Conditions

/-! What programs do with files, by path. -/

namespace ConfigStore.FileSystem

/-- What a path leads to. -/
def stat (files : FileSystem) (path : String) : Except FileFault Node :=
  match files.resolve true path with
  | .error fault => .error fault
  | .ok (.missing ..) => .error .notFound
  | .ok (.lost mode) => .ok (.directory mode)
  | .ok (.found place) =>
    match files.node? place with
    | some node => .ok node
    | none => .error .notFound

/-- Whether a path leads to a directory. -/
def isDirectory (files : FileSystem) (path : String) : Bool :=
  match files.stat path with
  | .ok node => node.isDirectory
  | .error _ => false

/-- The bytes of the file that a path leads to. -/
def contents (files : FileSystem) (path : String) : Except FileFault (List UInt8) :=
  match files.stat path with
  | .error fault => .error fault
  | .ok (.file _ content) => .ok content
  | .ok _ => .error .isDirectory

/-- The path that the link at a path leads to, if there is a link. -/
def readLink? (files : FileSystem) (path : String) : Option String :=
  match files.resolve false path with
  | .ok (.found place) =>
    match files.node? place with
    | some (.link target) => some target
    | _ => none
  | _ => none

/-- Creates a directory. -/
def makeDirectory (files : FileSystem) (path : String) : Except FileFault FileSystem :=
  match files.resolveEntry path with
  | .error fault => .error fault
  | .ok (.found _) | .ok (.lost _) => .error .exists
  | .ok (.missing directory name) =>
    .ok (files.put (directory ++ [name]) (.directory (files.newDirectoryMode directory)))

/-- Creates a directory unless there is one, without creating what is above it. -/
def ensureDirectory (files : FileSystem) (path : String) : Except FileFault Unit × FileSystem :=
  match files.makeDirectory path with
  | .ok made => (.ok (), made)
  | .error fault => (if files.isDirectory path then .ok () else .error fault, files)

/-- Creates a directory and what is missing above it. What was created stays even if the rest fails. -/
def ensureShape (files : FileSystem) (shape : Path.Shape) : Except FileFault Unit × FileSystem :=
  if shape.path.isEmpty then (.ok (), files)
  else
    match files.ensureDirectory shape.path with
    -- Something above is missing, and comes first.
    | (.error .notFound, _) =>
      match _above : shape.parent? with
      | none => (.error .noParent, files)
      | some parent =>
        match files.ensureShape parent with
        | (.error fault, made) => (.error fault, made)
        | (.ok (), made) => made.ensureDirectory shape.path
    | answer => answer
  termination_by shape.reversed.length + shape.lead.length
  decreasing_by exact Path.Shape.parent?_lt ‹_›

/-- Creates the directory of a path and what is missing above it. -/
def ensureDirectories (files : FileSystem) (path : String) : Except FileFault Unit × FileSystem :=
  files.ensureShape (Path.Shape.ofPath path)

/-- The path of a temporary file in a directory, as an absolute one if there is one. -/
def temporaryPath (files : FileSystem) (directory : String) (name : TemporaryName) : String :=
  Path.join ((files.absolute? directory).getD directory) name.text

/-- Creates an empty temporary file in a directory, by its path from the root, unless the name is taken there. -/
def createTemporary (files : FileSystem) (directory : String) (name : TemporaryName) :
    Except FileFault (Location × FileSystem) :=
  match files.absolute? directory with
  | none => .error .notFound
  | some _ =>
    match files.resolve false (files.temporaryPath directory name) with
    | .error fault => .error fault
    | .ok (.found _) | .ok (.lost _) => .error .exists
    | .ok (.missing place last) => .ok (place ++ [last], files.put (place ++ [last]) (.file Node.fileMode []))

/-- Moves the file at a place to where a path leads, over the file or link that is there. -/
def rename (files : FileSystem) (source : Location) (path : String) : Except FileFault FileSystem :=
  let pieces := openPieces path
  let isClosed := pieces.length < (Path.pieces path).length
  let isNamed := pieces.getLast?.any fun name => !Path.isVoid name && name != ".."
  let move (place : Location) : Except FileFault FileSystem :=
    match files.node? source with
    | none => .error .notFound
    | some node => .ok ((files.erase source).put place node)
  match files.resolveEntry path with
  | .error fault => .error fault
  | .ok place =>
    -- A directory that is only pointed at cannot be replaced, and a file cannot be closed by a slash.
    if !isNamed then .error .busy
    else if isClosed then .error .notDirectory
    else match place with
      | .missing directory name => move (directory ++ [name])
      | .lost _ => .error .isDirectory
      | .found place => if files.hasDirectory place then .error .isDirectory else move place

/-- Writes a file where a path leads, over what it held. -/
def writeFile (files : FileSystem) (path : String) (content : List UInt8) : Except FileFault FileSystem :=
  match files.resolve true path with
  | .error fault => .error fault
  | .ok (.missing directory name) =>
    if (Path.pieces path).getLast? == some "" then .error .isDirectory
    else .ok (files.put (directory ++ [name]) (.file Node.fileMode content))
  | .ok (.lost _) => .error .isDirectory
  | .ok (.found place) =>
    match files.node? place with
    | some (.file mode _) => .ok (files.put place (.file mode content))
    | _ => .error .isDirectory

/-- Creates a link to a path, which need not lead anywhere yet. -/
def makeLink (files : FileSystem) (path target : String) : Except FileFault FileSystem :=
  match pathFault? target, files.resolve false path with
  | some fault, _ => .error fault
  | none, .error fault => .error fault
  | none, .ok (.found _) | none, .ok (.lost _) => .error .exists
  | none, .ok (.missing directory name) => .ok (files.put (directory ++ [name]) (.link target))

/-- Changes the permissions of what a path leads to. -/
def changeMode (files : FileSystem) (path : String) (mode : Nat) : Except FileFault FileSystem :=
  match files.resolve true path with
  | .error fault => .error fault
  | .ok (.missing ..) => .error .notFound
  | .ok (.lost _) => .ok { files with lost := some mode }
  | .ok (.found place) =>
    match files.node? place with
    | some node => .ok (files.put place (node.withMode mode))
    | none => .error .notFound

/-- Takes away a file, a link, or a directory with everything below it. -/
def removeAll (files : FileSystem) (path : String) : Except FileFault FileSystem :=
  match files.resolve false path with
  | .error fault => .error fault
  | .ok (.missing ..) => .error .notFound
  | .ok (.found []) | .ok (.lost _) => .error .busy
  | .ok (.found place) => .ok (files.takeAway place)

end ConfigStore.FileSystem
