import ConfigStore.Text.Separate

/-! Paths are texts with slashes between names. They are joined and taken apart as texts, and nothing is
looked up. A path whose bytes are not UTF-8 is no text, and left out. -/

namespace ConfigStore.Path

/-- Whether a path begins at the root. -/
def isAbsolute (path : String) : Bool :=
  path.toList.head? == some '/'

/-- A path below another. An absolute path stands on its own, and a slash is added only where one is
missing. -/
def join (base path : String) : String :=
  if isAbsolute path then path
  else if base.isEmpty || base.toList.getLast? == some '/' then base ++ path
  else base ++ "/" ++ path

/-- The texts between the slashes of a path. -/
def pieces (path : String) : List String :=
  (separate '/' path.toList).map String.ofList

/-- A piece that names nothing. -/
def isVoid (piece : String) : Bool :=
  piece.isEmpty || piece == "."

/-- The pieces of a path that name something or lead upwards. -/
def names (path : String) : List String :=
  (pieces path).filter fun piece => !isVoid piece

/-- A path as its beginning and its pieces. -/
structure Shape where
  /-- A slash for an absolute path, a point for one that begins with the current directory, or nothing. -/
  lead : String
  /-- The pieces behind the beginning, the last one first. -/
  reversed : List String
  deriving DecidableEq, Repr

namespace Shape

/-- The shape of a path. -/
def ofPath (path : String) : Shape :=
  match path.toList with
  | '/' :: rest => ⟨"/", ((separate '/' rest).map String.ofList).reverse⟩
  | ['.'] => ⟨".", []⟩
  | '.' :: '/' :: rest => ⟨".", ("" :: (separate '/' rest).map String.ofList).reverse⟩
  | text => ⟨"", ((separate '/' text).map String.ofList).reverse⟩

/-- The path of a shape. -/
def path (shape : Shape) : String :=
  shape.lead ++ "/".intercalate shape.reversed.reverse

/-- The shape without the name at its end, and without what names nothing before and behind it. A path
without a name is below nothing, except that the current directory is below the empty path. -/
def parent? (shape : Shape) : Option Shape :=
  match shape.reversed.dropWhile isVoid with
  | _ :: rest => some { shape with reversed := rest.dropWhile isVoid }
  | [] => if shape.lead = "." then some ⟨"", []⟩ else none

/-- A parent has fewer pieces, or lacks a beginning that its child has. -/
theorem parent?_lt {shape parent : Shape} (above : shape.parent? = some parent) :
    parent.reversed.length + parent.lead.length < shape.reversed.length + shape.lead.length := by
  -- Dropping pieces that name nothing never adds any, and one name goes in between.
  have shorter : ∀ pieces : List String, (pieces.dropWhile isVoid).length ≤ pieces.length := fun pieces =>
    (List.dropWhile_sublist isVoid).length_le
  unfold parent? at above
  split at above
  · next head rest found =>
    have all := shorter shape.reversed
    rw [found] at all
    have behind := shorter rest
    cases above
    simp only [List.length_cons] at all
    simp only
    omega
  · split at above
    · next dotted =>
      cases above
      have one : ".".length = 1 := by decide
      simp only [dotted, List.length_nil, one]
      have zero : "".length = 0 := by decide
      omega
    · cases above

end Shape

/-- The path above another. -/
def parent? (path : String) : Option String :=
  (Shape.ofPath path).parent?.map Shape.path

end ConfigStore.Path
