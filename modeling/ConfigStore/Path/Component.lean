import ConfigStore.Path.Basic

/-! A path read step by step: where it begins, and what each of its pieces means. -/

namespace ConfigStore.Path

/-- A step of a path. -/
inductive Component where
  /-- The root, at which an absolute path begins. -/
  | root
  /-- The current directory, at which a path begins that says so. -/
  | current
  /-- The directory above. -/
  | up
  /-- What has a name. -/
  | named (name : String)
  deriving DecidableEq, Repr

/-- The step that a piece stands for. A void piece stands for none. -/
def Component.ofPiece? (piece : String) : Option Component :=
  if isVoid piece then none
  else if piece = ".." then some .up
  else some (.named piece)

/-- The step with which a path begins before its pieces are looked at. -/
def lead? (path : String) : Option Component :=
  match path.toList with
  | '/' :: _ => some .root
  -- A point only counts where nothing is in front of it.
  | ['.'] | '.' :: '/' :: _ => some .current
  | _ => none

/-- The steps of a path in order. -/
def components (path : String) : List Component :=
  (lead? path).toList ++ (pieces path).filterMap Component.ofPiece?

end ConfigStore.Path
