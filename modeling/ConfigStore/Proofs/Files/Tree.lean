import ConfigStore.Files.Operations

/-! Putting something into a tree changes what is at its own place and nothing else, and taking it away again
leaves the tree as it was. -/

namespace ConfigStore

namespace Forest

variable {forest : Forest} {name other : String} {change : Option Tree → Option Tree}

/-- The tree of a name is the one that a change comes to. -/
theorem tree?_alter_self {tree : Tree} (changed : change (forest.tree? name) = some tree) :
    (forest.alter name change).tree? name = some tree := by
  -- Trees of other names are passed on the way to the first one of the name.
  induction forest with
  | empty =>
    rw [tree?] at changed
    simp [alter, changed, tree?]
  | named first node below others _ ih =>
    rw [tree?] at changed
    rw [alter]
    by_cases same : first = name
    · -- Here is the first tree of the name.
      rw [if_pos same] at changed ⊢
      simp [changed, tree?]
    · rw [if_neg same] at changed ⊢
      rw [tree?, if_neg same]
      exact ih changed

/-- The tree of another name stays. -/
theorem tree?_alter_other (different : other ≠ name) : (forest.alter name change).tree? other = forest.tree? other := by
  -- Both the change and the look-up pass the trees one by one.
  induction forest with
  | empty =>
    rw [alter]
    cases change none with
    | none => rfl
    | some tree => simp [tree?, Ne.symm different]
  | named first node below others _ ih =>
    rw [alter]
    by_cases same : first = name
    · -- The tree that goes or comes is of the one name.
      have apart : first ≠ other := same ▸ Ne.symm different
      rw [if_pos same]
      cases change (some ⟨node, below⟩) with
      | none => simp [tree?, apart]
      | some tree => simp [tree?, Ne.symm different, apart]
    · rw [if_neg same, tree?, tree?, ih]

/-- Only what a change does to the tree of the name counts. -/
theorem alter_congr {again : Option Tree → Option Tree}
    (agree : change (forest.tree? name) = again (forest.tree? name)) :
    forest.alter name change = forest.alter name again := by
  -- The change is made once, at the first tree of the name or at the end.
  induction forest with
  | empty =>
    rw [tree?] at agree
    rw [alter, alter, agree]
  | named first node below others _ ih =>
    rw [tree?] at agree
    rw [alter, alter]
    by_cases same : first = name
    · rw [if_pos same] at agree
      rw [if_pos same, if_pos same, agree]
    · rw [if_neg same] at agree
      rw [if_neg same, if_neg same, ih agree]

/-- A change that leaves the tree of the name as it is leaves all of them. -/
theorem alter_eq_self (same : change (forest.tree? name) = forest.tree? name) : forest.alter name change = forest := by
  -- Nothing is added at the end, and the first tree of the name is put back.
  induction forest with
  | empty =>
    rw [tree?] at same
    rw [alter, same]
  | named first node below others _ ih =>
    rw [tree?] at same
    rw [alter]
    by_cases here : first = name
    · rw [if_pos here] at same ⊢
      rw [same, here]
    · rw [if_neg here] at same ⊢
      rw [ih same]

/-- A change on top of one that leaves a tree of the name is one change. -/
theorem alter_alter {again : Option Tree → Option Tree} (kept : ∀ found, (change found).isSome) :
    (forest.alter name change).alter name again = forest.alter name fun found => again (change found) := by
  induction forest with
  | empty =>
    obtain ⟨tree, changed⟩ := Option.isSome_iff_exists.1 (kept none)
    -- The tree that was added is the only one.
    simp only [alter, changed, if_true]
  | named first node below others _ ih =>
    by_cases here : first = name
    · obtain ⟨tree, changed⟩ := Option.isSome_iff_exists.1 (kept (some ⟨node, below⟩))
      simp only [alter, if_pos here, changed, if_true]
    · simp only [alter, if_neg here, ih]

end Forest

namespace Tree

variable {tree : Tree} {directory : Location} {name : String} {new : Node}

/-- The tree at a place is looked up from any place on the way. -/
theorem at?_append (front back : Location) : tree.at? (front ++ back) = (tree.at? front).bind (·.at? back) := by
  -- Each step of the front leads to the tree in which the others are looked up.
  induction front generalizing tree with
  | nil => rfl
  | cons name rest ih =>
    rw [List.cons_append, at?, at?]
    cases tree.below.tree? name with
    | none => rfl
    | some child => exact ih

/-- What was put at a place is there. -/
theorem at?_put_self (tree : Tree) (new : Node) (place : Location) :
    ∃ below, (tree.put new place).at? place = some ⟨new, below⟩ := by
  -- Missing steps are made on the way, so the place is there in any case.
  induction place generalizing tree with
  | nil => exact ⟨tree.below, rfl⟩
  | cons name rest ih =>
    obtain ⟨below, found⟩ := ih ((tree.below.tree? name).getD Tree.directory)
    refine ⟨below, ?_⟩
    rw [put, at?, Forest.tree?_alter_self rfl]
    exact found

/-- Every other place is as it was, if the directory was there. -/
theorem node_put_other (there : (tree.at? directory).isSome) {place : Location} (other : place ≠ directory ++ [name]) :
    ((tree.put new (directory ++ [name])).at? place).map Tree.node = (tree.at? place).map Tree.node := by
  -- The change is below the first name on the way, and other first names lead past it.
  induction directory generalizing tree place with
  | nil =>
    cases place with
    | nil => rfl
    | cons first rest =>
      rw [List.nil_append, put, at?, at?]
      by_cases same : first = name
      · subst same
        rw [Forest.tree?_alter_self rfl]
        -- What was below the name stays below it.
        cases rest with
        | nil => exact absurd rfl other
        | cons second more =>
          cases tree.below.tree? first with
          | none => rfl
          | some child => rfl
      · rw [Forest.tree?_alter_other same]
  | cons step steps ih =>
    rw [at?] at there
    cases found : tree.below.tree? step with
    | none => simp [found] at there
    | some child =>
      simp only [found] at there
      cases place with
      | nil => rfl
      | cons first rest =>
        rw [List.cons_append, put, at?, at?]
        by_cases same : first = step
        · subst same
          rw [Forest.tree?_alter_self rfl, found]
          exact ih there fun here => other (by rw [here, List.cons_append])
        · rw [Forest.tree?_alter_other same]

/-- Of two things that are put at a place, the second one stays. -/
theorem put_put (again : Node) (place : Location) : (tree.put new place).put again place = tree.put again place := by
  -- Step by step, both changes are made to the same tree.
  induction place generalizing tree with
  | nil => rfl
  | cons step rest ih =>
    rw [put, put, put, Forest.alter_alter fun found => rfl]
    refine congrArg (Tree.mk tree.node) (Forest.alter_congr ?_)
    exact congrArg some ih

/-- Behind a step, taking away goes on in the tree there. -/
theorem erase_cons (step : String) (tree : Tree) (directory : Location) (name : String) :
    tree.erase (step :: (directory ++ [name])) =
      { tree with below := tree.below.alter step fun found => found.map (erase · (directory ++ [name])) } := by
  -- Whether the step is the last of the directory makes no difference.
  cases directory with
  | nil => rfl
  | cons second rest => rfl

/-- Taking away what was put into a directory takes away what was there before. -/
theorem erase_put (there : (tree.at? directory).isSome) :
    (tree.put new (directory ++ [name])).erase (directory ++ [name]) = tree.erase (directory ++ [name]) := by
  -- Every step of the directory is there, so putting adds nothing that stays.
  induction directory generalizing tree with
  | nil =>
    rw [List.nil_append, put, erase, erase]
    exact congrArg (Tree.mk tree.node) (Forest.alter_alter fun found => rfl)
  | cons step steps ih =>
    rw [at?] at there
    cases found : tree.below.tree? step with
    | none => simp [found] at there
    | some child =>
      simp only [found] at there
      rw [List.cons_append, put, erase_cons, erase_cons, Forest.alter_alter fun found => rfl]
      refine congrArg (Tree.mk tree.node) (Forest.alter_congr ?_)
      rw [found]
      exact congrArg some (ih there)

/-- Taking away what is not there changes nothing. -/
theorem erase_of_absent (absent : tree.at? (directory ++ [name]) = none) : tree.erase (directory ++ [name]) = tree := by
  -- The way ends at some step, and from there nothing is changed.
  induction directory generalizing tree with
  | nil =>
    rw [List.nil_append, at?] at absent
    rw [List.nil_append, erase]
    refine congrArg (Tree.mk tree.node) (Forest.alter_eq_self ?_)
    cases found : tree.below.tree? name with
    | none => rfl
    | some child => simp [found, at?] at absent
  | cons step steps ih =>
    rw [List.cons_append, at?] at absent
    rw [List.cons_append, erase_cons]
    refine congrArg (Tree.mk tree.node) (Forest.alter_eq_self ?_)
    cases found : tree.below.tree? step with
    | none => rfl
    | some child =>
      simp only [found] at absent
      exact congrArg some (ih absent)

/-- What is not below a place stays when the place is taken away. -/
theorem node_erase_other {place other : Location} (apart : ¬place <+: other) :
    ((tree.erase place).at? other).map Tree.node = (tree.at? other).map Tree.node := by
  -- The two places part at some step, or the other one is further up.
  induction place generalizing tree other with
  | nil => exact absurd List.nil_prefix apart
  | cons step rest ih =>
    have kept : ∃ below, tree.erase (step :: rest) = ⟨tree.node, below⟩ := by
      cases rest with
      | nil => exact ⟨_, rfl⟩
      | cons second more => exact ⟨_, rfl⟩
    cases other with
    | nil =>
      obtain ⟨below, same⟩ := kept
      rw [same]
      rfl
    | cons first names =>
      by_cases same : first = step
      · subst same
        cases rest with
        | nil => exact absurd ⟨names, rfl⟩ apart
        | cons second more =>
          -- The tree of the step is changed further below, if it is there.
          rw [erase, at?, at?]
          · cases found : tree.below.tree? first with
            | none =>
              rw [Forest.alter_eq_self (by rw [found]; rfl), found]
            | some child =>
              rw [Forest.tree?_alter_self (by rw [found]; rfl)]
              exact ih fun inner => apart (List.cons_prefix_cons.2 ⟨rfl, inner⟩)
          · simp
      · have passed : ∀ change, ((tree.below.alter step change).tree? first) = tree.below.tree? first :=
          fun change => Forest.tree?_alter_other same
        cases rest with
        | nil => rw [erase, at?, at?, passed]
        | cons second more =>
          rw [erase, at?, at?, passed]
          simp

end Tree

namespace FileSystem

variable {files : FileSystem} {directory place : Location} {name : String} {new : Node}

/-- What was put at a place is there. -/
@[simp] theorem node?_put_self (files : FileSystem) (place : Location) (new : Node) :
    (files.put place new).node? place = some new := by
  obtain ⟨below, found⟩ := files.root.at?_put_self new place
  rw [node?, put, found]
  rfl

/-- Every other place is as it was, if the directory was there. -/
theorem node?_put_other (there : (files.node? directory).isSome) (other : place ≠ directory ++ [name]) :
    (files.put (directory ++ [name]) new).node? place = files.node? place := by
  rw [node?, Option.isSome_map] at there
  exact Tree.node_put_other there other

/-- Of two things that are put at a place, the second one stays. -/
theorem put_put (again : Node) : (files.put place new).put place again = files.put place again :=
  congrArg (fun root => { files with root }) (Tree.put_put again place)

/-- Taking away what was put into a directory takes away what was there before. -/
theorem erase_put (there : (files.node? directory).isSome) :
    (files.put (directory ++ [name]) new).erase (directory ++ [name]) = files.erase (directory ++ [name]) := by
  -- What is said of trees is said of the root.
  rw [node?, Option.isSome_map] at there
  rw [erase, erase, put]
  exact congrArg (fun root => { files with root }) (Tree.erase_put there)

/-- Taking away what is not there changes nothing. -/
theorem erase_of_absent (absent : files.node? (directory ++ [name]) = none) :
    files.erase (directory ++ [name]) = files := by
  -- What is said of trees is said of the root.
  rw [node?, Option.map_eq_none_iff] at absent
  rw [erase]
  exact congrArg (fun root => { files with root }) (Tree.erase_of_absent absent)

/-- What is not below a place stays when the place is taken away. -/
theorem node?_erase_other {other : Location} (apart : ¬place <+: other) :
    (files.erase place).node? other = files.node? other :=
  Tree.node_erase_other apart

/-- There is something at every place on the way to another. -/
theorem node?_front {front back : Location} (found : (files.node? (front ++ back)).isSome) :
    (files.node? front).isSome := by
  rw [node?, Option.isSome_map, Tree.at?_append] at found
  rw [node?, Option.isSome_map]
  exact Option.isSome_of_isSome_bind found

end FileSystem

end ConfigStore
