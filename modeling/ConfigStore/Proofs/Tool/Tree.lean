import ConfigStore.Proofs.Backend.Session
import ConfigStore.Proofs.Keyfile.Coherent
import ConfigStore.Tool.Text

/-! The tree of a domain is asked for name by name, and comes to one line for each section and each key, in order. -/

namespace ConfigStore

/-- The lines of a section in a tree. The branch of the last key has a shape of its own. -/
def Section.drawing (part : Section) : List String :=
  part.name :: part.keys.mapIdx fun index key =>
    if index + 1 = part.keys.length then "  `-- " ++ key else "  |-- " ++ key

/-- The lines of a keyfile in a tree. -/
def Keyfile.drawing (store : Keyfile) : List String :=
  store.sections.flatMap Section.drawing

/-- Lines as a text in which each of them is closed. -/
def linesText (lines : List String) : String :=
  String.join (lines.map (· ++ "\n"))

/-- The text of lines is that of the first of them and of the others. -/
theorem linesText_cons (line : String) (rest : List String) :
    linesText (line :: rest) = line ++ "\n" ++ linesText rest := by
  rw [linesText, List.map_cons, String.join_cons]
  rfl

/-- The text of lines is that of some of them and of the others. -/
theorem linesText_append (front back : List String) :
    linesText (front ++ back) = linesText front ++ linesText back := by
  rw [linesText, List.map_append, String.join_append]
  rfl

/-- Branches are lines, of which the last has a shape of its own. -/
theorem branchesText_eq (keys : List String) :
    branchesText keys = linesText (keys.mapIdx fun index key =>
      if index + 1 = keys.length then "  `-- " ++ key else "  |-- " ++ key) := by
  -- A key is the last one exactly when there are no others behind it.
  induction keys with
  | nil => rfl
  | cons key rest ih =>
    rw [List.mapIdx_cons, linesText_cons]
    cases rest with
    | nil => simp [branchesText, linesText, toString]
    | cons second others =>
      rw [branchesText, ih]
      · simp [toString]
      · simp

namespace Backend

variable {backend : Backend}

/-- A backend tells the keys of a section that it finds. -/
theorem keys_of_found (allowed : backend.check .keys = .ok ()) {name : String} {keys : List String}
    (found : backend.store.keys? name = some keys) : backend.keys name = .ok keys := by
  rw [Backend.keys, allowed, found]
  rfl

/-- The tree of sections whose keys are told is made of their lines. -/
theorem treeTextOf_eq {parts : List Section} (told : ∀ part ∈ parts, backend.keys part.name = .ok part.keys) :
    treeTextOf backend (parts.map Section.name) = .ok (linesText (parts.flatMap Section.drawing)) := by
  -- The text of each section comes before that of the others.
  induction parts with
  | nil => rfl
  | cons part rest ih =>
    obtain ⟨first, others⟩ := List.forall_mem_cons.1 told
    rw [List.map_cons, treeTextOf, first, ih others]
    show Except.ok (part.name ++ "\n" ++ branchesText part.keys ++ linesText (rest.flatMap Section.drawing)) = _
    rw [branchesText_eq, ← linesText_cons, ← linesText_append]
    rfl

/-- The tree of a store that was reached is made of its lines. -/
theorem treeText_eq (asked : backend.check .sections = .ok ()) (allowed : backend.check .keys = .ok ())
    (reached : backend.store.Reachable) : treeText backend = .ok (linesText backend.store.drawing) := by
  have listed : backend.sections = .ok (backend.store.sections.map Section.name) := by
    rw [Backend.sections, asked]
    rfl
  rw [treeText, listed]
  -- The name of a section leads back to the section.
  apply treeTextOf_eq
  intro part member
  exact keys_of_found allowed (reached.coherent.keys part member)

end Backend

/-- Whatever is reached is coherent, and of a domain that a program holds in a keyfile or in memory each section and
each key is drawn, in order. -/
theorem coherent_and_drawn :
    (∀ store : Keyfile, store.Reachable → store.Coherent) ∧
      ∀ (world : World) (turns : List Turn), world.shelves = [] →
        ∀ backend ∈ (turns.foldl Session.next ⟨world, []⟩).backends, (∀ faults store, backend ≠ .faulty faults store) →
          backend.store.Coherent ∧ treeText backend = .ok (linesText backend.store.drawing) := by
  refine ⟨fun store reached => reached.coherent, ?_⟩
  -- Every backend that a program holds works on a store that was reached.
  intro world turns bare backend member kind
  have reached := (Session.sound_run bare turns).backends backend member
  refine ⟨reached.coherent, ?_⟩
  cases backend with
  | keyfile path copy => exact Backend.treeText_eq rfl rfl reached
  | memory shelf domain copy => exact Backend.treeText_eq rfl rfl reached
  | faulty faults store => exact absurd rfl (kind faults store)

/-- Repetitions in other spellings are not listed, and a section is drawn even when its last key is gone. -/
theorem coherent_and_drawn_two :
    (Keyfile.mk [⟨"a", [⟨"k", "v"⟩]⟩, ⟨"b", [⟨"x", "y"⟩]⟩]).Coherent ∧
      treeText (.memory 0 "d" ⟨⟨[⟨"a", [⟨"k", "v"⟩, ⟨"x", "w"⟩]⟩, ⟨"b", []⟩]⟩, false⟩) =
        .ok "a\n  |-- k\n  `-- x\nb\n" := by
  have loaded : (Keyfile.Reachable (⟨[⟨"a", [⟨"k", "v"⟩]⟩, ⟨"b", [⟨"x", "y"⟩]⟩]⟩)) := by
    have run := (Keyfile.Reachable.ofText 9 "[a]\nk=v\nK=w\n[A]\n").run
      [.pushSection "b", .pushSection "B", .changeSectionAt 1 (.insertNew "x" "y"), .request (.remove "b" "k")]
    exact run
  refine ⟨coherent_and_drawn.1 _ loaded, ?_⟩
  exact (coherent_and_drawn.2 {} [.newMemory "d", .setOrUnset 0 "a" "k" (some "v"), .setOrUnset 0 "b" "k" (some "u"),
    .setOrUnset 0 "A" "x" (some "w"), .setOrUnset 0 "B" "K" none, .flush 0] rfl _ (by decide +kernel) (by simp)).2

end ConfigStore
