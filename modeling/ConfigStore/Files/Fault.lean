/-! Why an operation on files or streams failed. -/

namespace ConfigStore

/-- The reasons for which files and streams fail. -/
inductive FileFault where
  /-- A name leads nowhere. -/
  | notFound
  /-- There is something of that name already. -/
  | exists
  /-- Something on the way or at the end should be a directory. -/
  | notDirectory
  /-- A directory is where a file should be. -/
  | isDirectory
  /-- A name or a whole path is too long. -/
  | nameTooLong
  /-- Too many links were followed. -/
  | tooManyLinks
  /-- The place cannot be replaced. -/
  | busy
  /-- A path holds the character that ends paths. -/
  | nulCharacter
  /-- No directory above a path could be created. -/
  | noParent
  /-- A stream failed for a reason of its own. -/
  | stream (reason : String)
  deriving DecidableEq, Repr

/-- The wording of a fault. -/
def FileFault.message : FileFault → String
  | .notFound => "No such file or directory (os error 2)"
  | .busy => "Device or resource busy (os error 16)"
  | .exists => "File exists (os error 17)"
  | .notDirectory => "Not a directory (os error 20)"
  | .isDirectory => "Is a directory (os error 21)"
  | .nameTooLong => "File name too long (os error 36)"
  | .tooManyLinks => "Too many levels of symbolic links (os error 40)"
  | .nulCharacter => "file name contained an unexpected NUL byte"
  | .noParent => "failed to create whole tree"
  | .stream reason => reason

end ConfigStore
