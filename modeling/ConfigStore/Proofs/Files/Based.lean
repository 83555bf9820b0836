import ConfigStore.Proofs.Files.Below
import ConfigStore.Proofs.Path.Domain

/-! Paths behind a home that leads to a directory, and what they lead to. Where the way is open, what is by the last name
decides, and elsewhere they lead to nothing. -/

namespace ConfigStore.FileSystem

open Path (namesOf)

/-- A home that leads below a base. Its pieces in front lead to the base, and the rest does not lead upwards. -/
structure Based (files : FileSystem) (home : String) (base : Location) (rest : List String) : Prop where
  /-- The base is a directory. -/
  inside : files.hasDirectory base = true
  /-- No piece behind it leads upwards. -/
  level : ".." ∉ rest
  /-- A walk along the pieces in front comes to the base. -/
  run : ∃ front links, Path.pieces home = front ++ rest ∧
    files.Runs true ⟨mostLinks, files.start home, front⟩ ⟨links, some base, []⟩

variable {files : FileSystem} {home path name : String} {base : Location} {inner pieces rest : List String}

/-- A relative path behind the home goes on from the base, behind what is left of the home's pieces. -/
theorem Based.exists_ahead (based : files.Based home base rest) (relative : Path.isAbsolute path = false) :
    ∃ ahead links more, Path.pieces (Path.join home path) = ahead ++ (more ++ Path.pieces path) ∧
      namesOf more = namesOf rest ∧ (∀ piece ∈ more, piece ∈ rest) ∧
      files.Runs true ⟨mostLinks, files.start (Path.join home path), ahead⟩ ⟨links, some base, []⟩ := by
  obtain ⟨first, links, shown, run⟩ := based.run
  obtain ⟨front, whole, kind⟩ := Path.pieces_join home relative
  have starts : files.start (Path.join home path) = files.start home := start_congr (Path.isAbsolute_join relative)
  have blank : namesOf [""] = [] := by decide
  rw [starts]
  -- But for a slash at its end, all pieces of the home stay.
  obtain ⟨ahead, fewer, more, rfl, same, within, comes⟩ : ∃ ahead fewer more, front = ahead ++ more ∧
      namesOf more = namesOf rest ∧ (∀ piece ∈ more, piece ∈ rest) ∧
      files.Runs true ⟨mostLinks, files.start home, ahead⟩ ⟨fewer, some base, []⟩ := by
    have closed : ∀ short, first ++ rest = short ++ [""] → ∃ ahead fewer more, short = ahead ++ more ∧
        namesOf more = namesOf rest ∧ (∀ piece ∈ more, piece ∈ rest) ∧
        files.Runs true ⟨mostLinks, files.start home, ahead⟩ ⟨fewer, some base, []⟩ := by
      intro short spelled
      rcases List.eq_nil_or_concat rest with rfl | ⟨inner, last, rfl⟩
      · rw [List.append_nil] at spelled
        rw [spelled] at run
        obtain ⟨fewer, there, before, slash⟩ := run.split (Nat.zero_le _)
        obtain rfl := slash.voids (by decide)
        exact ⟨short, fewer, [], (List.append_nil _).symm, rfl, fun piece member => member, before⟩
      · rw [List.concat_eq_append, ← List.append_assoc] at spelled
        obtain ⟨rfl, rfl⟩ := List.append_singleton_inj.1 spelled
        rw [List.concat_eq_append]
        refine ⟨first, links, inner, rfl, ?_, fun piece member => List.mem_append_left _ member, run⟩
        rw [Path.namesOf_append, blank, List.append_nil]
    rcases kind with ⟨rfl, rfl⟩ | spelled | spelled
    · exact closed [] shown.symm
    · exact ⟨first, links, rest, spelled ▸ shown, rfl, fun piece member => member, run⟩
    · exact closed front (shown.symm.trans spelled)
  exact ⟨ahead, fewer, more, by rw [whole, List.append_assoc], same, within, comes⟩

/-- A relative path behind the home is below the base, if it does not lead upwards or to a link. -/
theorem Based.below (based : files.Based home base rest) (relative : Path.isAbsolute path = false)
    (level : ".." ∉ Path.pieces path) (sound : pathFault? (Path.join home path) = none)
    (unlinked : files.Unlinked base (namesOf rest ++ namesOf (Path.pieces path))) :
    ∃ more, namesOf more = namesOf rest ∧ files.Below (Path.join home path) base (more ++ Path.pieces path) := by
  obtain ⟨ahead, links, more, whole, same, within, run⟩ := based.exists_ahead relative
  have spelled : namesOf (more ++ Path.pieces path) = namesOf rest ++ namesOf (Path.pieces path) := by
    rw [Path.namesOf_append, same]
  refine ⟨more, same, sound, based.inside, fun up => ?_, spelled ▸ unlinked, ahead, links, whole, run⟩
  rcases List.mem_append.1 up with above | own
  · exact based.level (within _ above)
  · exact level own

/-- A path whose way is open in front of its last name ends by the name there. -/
theorem Based.entry (based : files.Based path base (inner ++ [name])) (names : Path.Names name)
    (short : name.utf8ByteSize ≤ mostNameBytes) (isOpen : files.Open base (namesOf inner)) :
    files.Entry path (base ++ namesOf inner) name := by
  obtain ⟨front, links, whole, run⟩ := based.run
  have comes : files.Runs true ⟨mostLinks, files.start path, front ++ inner⟩ ⟨links, some base, [] ++ inner⟩ :=
    run.append (.inr rfl)
  have down : files.Runs true ⟨links, some base, inner ++ []⟩ ⟨links, some (base ++ namesOf inner), []⟩ :=
    isOpen.runs fun member => based.level (List.mem_append_left _ member)
  rw [List.append_nil] at down
  exact ⟨names, short, isOpen.end_inside, front ++ inner, links, by rw [whole, List.append_assoc], comes.trans down⟩

/-- The root is a base for itself. -/
theorem based_of_root (root : files.hasDirectory [] = true) : files.Based "/" [] [] :=
  ⟨root, List.not_mem_nil, Path.pieces "/", mostLinks, (List.append_nil _).symm,
    .head (.void root (by decide)) (.head (.void root (by decide)) .refl)⟩

/-- It is even with nothing in it. -/
theorem based_root : ({} : FileSystem).Based "/" [] [] :=
  based_of_root (by decide)

namespace Below

/-- A path below a base is a home for paths below it. -/
theorem based (below : files.Below path base pieces) : files.Based path base pieces :=
  ⟨below.inside, below.level, below.run⟩

/-- By a last name behind an open way, the path leads to what is there. -/
theorem stat_of_open (below : files.Below path base (inner ++ [name])) (names : Path.Names name)
    (short : name.utf8ByteSize ≤ mostNameBytes) (isOpen : files.Open base (namesOf inner)) :
    files.stat path = match files.node? (base ++ (namesOf inner ++ [name])) with
      | none => .error .notFound
      | some node => .ok node := by
  have level : ".." ∉ inner := fun member => below.level (List.mem_append_left _ member)
  have here := isOpen.end_inside
  -- A walk comes by the last name.
  have comes : ∀ result, (∀ links, files.Ends true ⟨links, some (base ++ namesOf inner), [name]⟩ result) →
      files.resolve true path = result :=
    fun result ends => below.ends (isOpen.ends level ends)
  rw [← List.append_assoc, stat]
  -- What is by the name is no link, so that it is where the walk ends.
  cases found : files.node? (base ++ namesOf inner ++ [name]) with
  | none => rw [comes _ fun _ => .now (.missing here names short found rfl)]
  | some node =>
    have solid : ∀ target, node ≠ .link target := by
      rintro target rfl
      refine below.unlinked (namesOf inner ++ [name]) ?_ target ?_
      · rw [Path.namesOf_append, Path.namesOf_cons_name names]
        exact List.prefix_rfl
      · rw [← List.append_assoc]
        exact found
    rw [comes _ fun _ => .later (.down here names short found solid) (.found (by rw [found]; rfl))]
    simp only [found]

/-- The path leads to what is by its last name exactly if that is behind an open way. -/
theorem stat_eq_ok_iff (below : files.Below path base (inner ++ [name])) (names : Path.Names name)
    (short : name.utf8ByteSize ≤ mostNameBytes) {node : Node} :
    files.stat path = .ok node ↔
      files.Open base (namesOf inner) ∧ files.node? (base ++ (namesOf inner ++ [name])) = some node := by
  have level : ".." ∉ inner := fun member => below.level (List.mem_append_left _ member)
  have unlinked : files.Unlinked base (namesOf inner) := by
    refine below.unlinked.mono ?_
    rw [Path.namesOf_append]
    exact List.prefix_append ..
  have fails : ∀ fault, files.Stops base (inner ++ [name]) fault → files.stat path = .error fault := by
    intro fault stops
    rw [stat, below.ends fun links => stops links true]
  constructor
  · intro leads
    have isOpen : files.Open base (namesOf inner) := by
      cases walks below.inside level unlinked ⟨name, List.mem_cons_self, names.ne_empty⟩ with
      | through isOpen => exact isOpen
      | missing _ stops =>
        rw [fails _ stops] at leads
        cases leads
      | blocked _ _ _ stops =>
        rw [fails _ stops] at leads
        cases leads
    refine ⟨isOpen, ?_⟩
    rw [below.stat_of_open names short isOpen] at leads
    cases found : files.node? (base ++ (namesOf inner ++ [name])) with
    | none =>
      rw [found] at leads
      cases leads
    | some other =>
      rw [found] at leads
      rw [Except.ok.inj leads]
  · rintro ⟨isOpen, found⟩
    rw [below.stat_of_open names short isOpen, found]

end Below

end ConfigStore.FileSystem
