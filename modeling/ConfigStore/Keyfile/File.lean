import ConfigStore.Files.Operations
import ConfigStore.Keyfile.Source
import ConfigStore.Keyfile.Writer

/-! Keyfiles are loaded from files, and written to files that are replaced as a whole or not at all. -/

namespace ConfigStore

/-- The size of the chunks in which files are read. -/
def fileChunk : Nat := 8192

/-- Loads the keyfile at a path, an empty one if there is nothing. -/
def openKeyfile (files : FileSystem) (path : String) : Except ConfigError Keyfile × List Event :=
  match files.contents path with
  | .error .notFound => (.ok {}, [.keyfileMissing path])
  | .error fault => (.error (.file path fault), [])
  | .ok content =>
    -- A buffer for lines of the default limit can always be made.
    let (result, events) := Keyfile.loadBuffered defaultLineLimit (Source.ofBytes fileChunk content none)
    (result.mapError (.file path), events)

/-- The path to be replaced in order to write to a path: where it leads, or what the link there names, or the
path itself. -/
def replacedPath (files : FileSystem) (path : String) (troubles : Troubles) : Except FileFault String :=
  match amid (troubles.locate.filter (· != .notFound)) (files.canonical path) with
  | .ok resolved => .ok resolved
  -- Nothing is at the end, but a link may say where it is to be.
  | .error .notFound =>
    match if troubles.unread then none else files.readLink? path with
    | none => .ok path
    | some target =>
      match Path.parent? path with
      | some parent => .ok (Path.join parent target)
      | none => .ok target
  | .error fault => .error fault

/-- The directory in which a path is replaced. -/
def replacedDirectory (path : String) : String :=
  match Path.parent? path with
  | none => "."
  | some parent => if parent.isEmpty then "." else parent

/-- Gives a temporary file that holds some bytes the permissions of what it is to replace, if that is there. -/
def takePermissions (troubles : Troubles) (filled : FileSystem) (temporary : Location) (target : String)
    (content : List UInt8) : Except FileFault FileSystem :=
  if troubles.unseen then .ok filled
  else match filled.stat target with
    | .ok node => amid troubles.permit (.ok (filled.put temporary (.file node.mode content)))
    | .error _ => .ok filled

/-- Replaces the file that a path leads to. The bytes are written to a temporary file beside it, which gets
its permissions and is then moved over it. A failure takes the temporary file away again. -/
def replaceFile (files : FileSystem) (path : String) (content : List UInt8) (conditions : Conditions) :
    Except ConfigError String × FileSystem :=
  let troubles := conditions.troubles
  match replacedPath files path troubles with
  | .error fault => (.error (.file path fault), files)
  | .ok target =>
    -- Only a file in the same directory can be moved over the old one in a single step.
    let directory := replacedDirectory target
    match amid troubles.create (files.createTemporary directory conditions.temporary) with
    | .error fault => (.error (.file directory fault), files)
    | .ok (temporary, created) =>
      let fail (path : String) (fault : FileFault) (made : FileSystem) : Except ConfigError String × FileSystem :=
        (.error (.file path fault), made.erase temporary)
      let own := files.temporaryPath directory conditions.temporary
      match troubles.fill with
      | some (count, fault) => fail own fault (created.put temporary (.file Node.fileMode (content.take count)))
      | none =>
        let filled := created.put temporary (.file Node.fileMode content)
        match troubles.sync with
        | some fault => fail own fault filled
        | none =>
          match takePermissions troubles filled temporary target content with
          | .error fault => fail own fault filled
          | .ok written =>
            match amid troubles.move (written.rename temporary target) with
            | .ok replaced => (.ok target, replaced)
            | .error fault => fail target fault written

/-- Writes a keyfile to a path. -/
def writeKeyfile (files : FileSystem) (store : Keyfile) (path : String) (conditions : Conditions) :
    Except ConfigError Unit × FileSystem × List Event :=
  match replaceFile files path (Utf8.encode store.render) conditions with
  | (.ok target, written) => (.ok (), written, [.keyfileWritten target])
  | (.error error, same) => (.error error, same, [.keyfileUnwritten path error])

end ConfigStore
