import ConfigStore.Backend.Factory
import ConfigStore.Proofs.Backend.Edits
import ConfigStore.Proofs.World

/-! Domains on one shelf, and handles on them that take turns. A handle works on a copy of its own, which only its own
turns change, and the shelf keeps for a domain what was put back last. -/

namespace ConfigStore

/-- What is done with a handle. -/
inductive ShelfDeed where
  | revise (edit : Edit)
  | has (name key : String)
  | flush
  | close
  | drop
  deriving DecidableEq, Repr

/-- What a program does next with domains on a shelf. Handles go by numbers, in the order in which they were opened. -/
inductive ShelfTurn where
  | openDomain (domain : String)
  | use (handle : Nat) (deed : ShelfDeed)
  deriving DecidableEq, Repr

/-- What is done with one handle in a turn, if the turn is its own. -/
def ShelfTurn.deed? (number : Nat) : ShelfTurn → Option ShelfDeed
  | .openDomain _ => none
  | .use handle deed => if handle = number then some deed else none

namespace ShelfDeed

/-- Does something with a backend, which is then held no more if it was given up. -/
def run (backend : Backend) : ShelfDeed → Effect (Option Backend)
  | .revise edit => do
    match ← (backend.setOrUnset edit.name edit.key edit.change).run with
    | .ok changed => return some changed
    | .error _ => return some backend
  | .has name key => do
    let _ ← backend.has name key
    return some backend
  | .flush => do return some (← backend.flush).2
  | .close => do return some (← backend.close).2
  | .drop => do
    backend.drop
    return none

/-- The copy of a handle afterwards. A change counts if it makes a difference, even if that is undone, until the store
is put back. -/
def turn (copy : WorkingCopy) : ShelfDeed → WorkingCopy
  | .revise edit => ⟨edit.apply copy.store, copy.dirty || edit.apply copy.store != copy.store⟩
  | .has .. => copy
  | .flush => ⟨copy.store, false⟩
  | .close => ⟨copy.store, false⟩
  | .drop => copy

/-- The copy of a handle after all that was done with it since it was opened with what was kept for its domain. -/
def copyAfter (kept : Option Keyfile) (deeds : List ShelfDeed) : WorkingCopy :=
  deeds.foldl turn ⟨kept.getD {}, false⟩

/-- The store that is put back: that of a handle that is flushed or closed, or given up with changes that count. -/
def putBack? (copy : WorkingCopy) : ShelfDeed → Option Keyfile
  | .revise _ => none
  | .has .. => none
  | .flush => some copy.store
  | .close => some copy.store
  | .drop => if copy.dirty then some copy.store else none

end ShelfDeed

/-- A program that has handles on domains. -/
structure Sharing where
  /-- The surroundings. -/
  world : World := {}
  /-- What the handles hold, or nothing for those that were given up. -/
  handles : List (Option Backend) := []
  deriving DecidableEq, Repr

namespace Sharing

/-- What a handle holds, unless it was given up. -/
def backend? (sharing : Sharing) (handle : Nat) : Option Backend :=
  sharing.handles[handle]?.join

/-- What a shelf keeps for a domain. -/
def kept? (sharing : Sharing) (shelf : Nat) (domain : String) : Option Keyfile :=
  ((World.shelved? shelf domain).run sharing.world).1

/-- The program after a turn. Nothing is done with a handle that was given up. -/
def next (shelf : Nat) (sharing : Sharing) : ShelfTurn → Sharing
  | .openDomain domain =>
    match ((Factory.memory shelf).openDomain domain).after sharing.world with
    | (.ok backend, world) => ⟨world, sharing.handles ++ [some backend]⟩
    | (.error _, world) => ⟨world, sharing.handles⟩
  | .use handle deed =>
    match sharing.backend? handle with
    | none => sharing
    | some backend =>
      let (left, world) := (deed.run backend).run sharing.world
      ⟨world, sharing.handles.set handle left⟩

/-- The program after some turns. -/
def after (shelf : Nat) (sharing : Sharing) (turns : List ShelfTurn) : Sharing :=
  turns.foldl (next shelf) sharing

/-- What a turn puts back, and for which domain. -/
def putBack? (sharing : Sharing) : ShelfTurn → Option (String × Keyfile)
  | .openDomain _ => none
  | .use handle deed =>
    match sharing.backend? handle with
    | some (.memory _ domain copy) => (deed.putBack? copy).map (domain, ·)
    | _ => none

/-- All that is put back in some turns, in order. -/
def history (shelf : Nat) (sharing : Sharing) : List ShelfTurn → List (String × Keyfile)
  | [] => []
  | turn :: rest => (sharing.putBack? turn).toList ++ (sharing.next shelf turn).history shelf rest

end Sharing

/-- What was kept for a domain last is what a shelf keeps for it. -/
theorem Shelf.get?_keep (shelf : Shelf) (domain other : String) (store : Keyfile) :
    (shelf.keep domain store).get? other = if domain = other then some store else shelf.get? other := by
  obtain ⟨domains⟩ := shelf
  simp only [keep, get?]
  -- The first entry of the name is replaced, or there is none and one comes last.
  induction domains with
  | nil =>
    by_cases same : domain = other
    · subst same
      simp [upsert]
    · simp [upsert, same, Ne.symm same]
  | cons first rest ih =>
    obtain ⟨name, kept⟩ := first
    rw [upsert]
    by_cases here : name = domain
    · subst here
      by_cases same : name = other
      · subst same
        simp
      · have apart : (other == name) = false := by simpa using Ne.symm same
        simp [List.lookup_cons, apart, same]
    · rw [if_neg (by simpa using here), List.lookup_cons, List.lookup_cons, ih]
      by_cases found : domain = other
      · subst found
        have apart : (domain == name) = false := by simpa using Ne.symm here
        simp [apart]
      · simp [found]

namespace Backend

/-- The value of a key is the one in the store, unless tasks fail. -/
theorem getText_of_able {backend : Backend} (able : backend.check .get = .ok ()) (name key : String) :
    backend.getText name key = match backend.store.get? name key with
      | some text => .ok text
      | none => .error (.notFound name key) := by
  rw [getText, able]
  cases backend.store.get? name key with
  | some text => rfl
  | none => rfl

/-- A value that a key has is its text. -/
theorem getText_of_getValue {backend : Backend} {name key : String} {value : Value}
    (found : backend.getValue name key = .ok value) : backend.getText name key = .ok value.text := by
  rw [getValue] at found
  cases reads : backend.getText name key with
  | error error =>
    rw [reads] at found
    cases found
  | ok text =>
    rw [reads] at found
    rw [← Except.ok.inj found]

/-- A key that is given the text that it has leaves the backend as it was, and nothing is reported. -/
theorem setText_of_getText {backend : Backend} {name key text : String} (able : backend.check .set = .ok ())
    (found : backend.getText name key = .ok text) : backend.setText name key text = pure backend := by
  have held : backend.store.get? name key = some text := by
    cases reads : backend.check .get with
    | error error =>
      rw [getText, reads] at found
      cases found
    | ok _ =>
      rw [getText_of_able reads] at found
      split at found
      · next stored =>
        cases found
        exact stored
      · cases found
  cases backend with
  | keyfile path copy =>
    have holds : copy.holds name key text = true := beq_iff_eq.2 held
    rw [setText, able, holds, WorkingCopy.set, if_pos holds]
    rfl
  | memory shelf domain copy =>
    have holds : copy.holds name key text = true := beq_iff_eq.2 held
    rw [setText, able, WorkingCopy.set, if_pos holds]
    rfl
  | faulty faults store =>
    rw [setText, able, Keyfile.set_of_get? store held]
    rfl

/-- Whether a key has a value is a matter of the store, unless tasks fail. -/
theorem has_of_able {backend : Backend} (able : backend.check .get = .ok ()) (name key : String) (world : World) :
    (backend.has name key).run world = ((backend.store.get? name key).isSome, world) := by
  rw [has, getText_of_able able]
  cases backend.store.get? name key with
  | some text => rfl
  | none => rfl

/-- The keys of a section are those in the store, unless tasks fail. -/
theorem keys_of_able {backend : Backend} (able : backend.check .keys = .ok ()) (name : String) :
    backend.keys name = match backend.store.keys? name with
      | some found => .ok found
      | none => .error (.sectionNotFound name) := by
  rw [keys, able]
  cases backend.store.keys? name with
  | some found => rfl
  | none => rfl

variable (shelf : Nat) (domain : String) (copy : WorkingCopy)

/-- A change is made in the copy of a domain on a shelf, and the surroundings stay as they are. -/
theorem setOrUnset_memory (edit : Edit) (world : World) :
    ((Backend.memory shelf domain copy).setOrUnset edit.name edit.key edit.change).after world =
      (.ok (.memory shelf domain (copy.edit edit)), world) := by
  -- Nothing is reported, unlike for a keyfile.
  rw [WorkingCopy.edit]
  cases edit.change with
  | some value => rfl
  | none => rfl

/-- Whether a key has a value is a matter of the copy. -/
theorem has_memory (name key : String) (world : World) :
    ((Backend.memory shelf domain copy).has name key).run world = ((copy.store.get? name key).isSome, world) :=
  has_of_able rfl name key world

end Backend

/-- The surroundings once something was put on a shelf, if anything was. -/
def World.keeping (shelf : Nat) (domain : String) (world : World) : Option Keyfile → World
  | none => world
  | some store => ((putOnShelf shelf domain store).run world).2

/-- What is done with a domain on a shelf changes the copy and puts back what it should. -/
theorem ShelfDeed.run_memory (deed : ShelfDeed) (shelf : Nat) (domain : String) (copy : WorkingCopy) (world : World) :
    (deed.run (.memory shelf domain copy)).run world =
      (if deed = .drop then none else some (.memory shelf domain (deed.turn copy)),
        world.keeping shelf domain (deed.putBack? copy)) := by
  cases deed with
  | revise edit =>
    have made := Backend.setOrUnset_memory shelf domain copy edit world
    rw [Action.after] at made
    rw [run, Effect.run_bind, made, WorkingCopy.edit_eq]
    rfl
  | has name key =>
    rw [run, Effect.run_bind, Backend.has_memory]
    rfl
  | flush => rfl
  | close => rfl
  | drop =>
    -- Only changes that count are put back.
    obtain ⟨store, dirty⟩ := copy
    cases dirty with
    | true => rfl
    | false => rfl

namespace Sharing

variable {shelf : Nat} {sharing : Sharing}

/-- A program whose handles are all on one shelf, which is there. -/
structure Sound (shelf : Nat) (sharing : Sharing) : Prop where
  /-- The shelf is there. -/
  there : sharing.world.shelves[shelf]?.isSome
  /-- Whatever a handle holds is a domain on the shelf. -/
  memory : ∀ handle backend, sharing.backend? handle = some backend →
    ∃ domain copy, backend = .memory shelf domain copy

/-- A handle holds what was put there last. -/
theorem backend?_set {handle : Nat} {backend : Backend} (held : sharing.backend? handle = some backend) (world : World)
    (left : Option Backend) (number : Nat) :
    backend? ⟨world, sharing.handles.set handle left⟩ number =
      if handle = number then left else sharing.backend? number := by
  -- A handle that holds something is one of the handles.
  obtain ⟨within, -⟩ := List.getElem?_eq_some_iff.1 (Option.join_eq_some_iff.1 held)
  simp only [backend?, List.getElem?_set]
  split
  · rw [Option.join_some]
  · rfl

/-- A domain that is opened is held with what is kept for it. -/
theorem next_openDomain (shelf : Nat) (sharing : Sharing) (domain : String) :
    sharing.next shelf (.openDomain domain) =
      ⟨{ sharing.world with events := sharing.world.events ++ [.memoryOpened domain] },
        sharing.handles ++ [some (.memory shelf domain ⟨(sharing.kept? shelf domain).getD {}, false⟩)]⟩ :=
  rfl

/-- A handle that is used holds what comes of that. -/
theorem next_use {handle : Nat} {domain : String} {copy : WorkingCopy}
    (held : sharing.backend? handle = some (.memory shelf domain copy)) (deed : ShelfDeed) :
    sharing.next shelf (.use handle deed) =
      ⟨sharing.world.keeping shelf domain (deed.putBack? copy), sharing.handles.set handle
        (if deed = .drop then none else some (.memory shelf domain (deed.turn copy)))⟩ := by
  simp only [next, held, ShelfDeed.run_memory]

/-- A handle that was given up is not used. -/
theorem next_of_gone {handle : Nat} (gone : sharing.backend? handle = none) (deed : ShelfDeed) :
    sharing.next shelf (.use handle deed) = sharing := by
  simp only [next, gone]

/-- Opening and using handles leaves all of them on the shelf. -/
theorem Sound.next (sound : sharing.Sound shelf) (turn : ShelfTurn) : (sharing.next shelf turn).Sound shelf := by
  cases turn with
  | openDomain domain =>
    rw [next_openDomain]
    refine ⟨sound.there, ?_⟩
    intro number backend held
    -- The new handle comes behind those from before.
    rw [backend?, Option.join_eq_some_iff] at held
    rcases List.mem_append.1 (List.mem_of_getElem? held) with old | new
    · obtain ⟨index, found⟩ := List.getElem?_of_mem old
      exact sound.memory index backend (Option.join_eq_some_iff.2 found)
    · exact ⟨domain, _, Option.some.inj (List.mem_singleton.1 new)⟩
  | use handle deed =>
    cases held : sharing.backend? handle with
    | none =>
      rw [next_of_gone held]
      exact sound
    | some backend =>
      obtain ⟨domain, copy, rfl⟩ := sound.memory handle backend held
      rw [next_use held]
      refine ⟨?_, ?_⟩
      · cases deed.putBack? copy with
        | none => exact sound.there
        | some store => simpa [World.keeping] using sound.there
      · intro number backend found
        rw [backend?_set held] at found
        split at found
        · split at found
          · cases found
          · exact ⟨domain, _, (Option.some.inj found).symm⟩
        · exact sound.memory number backend found

/-- What a shelf keeps for a domain is what a turn puts back for it, if it does, and otherwise what it was. -/
theorem kept?_next (sound : sharing.Sound shelf) (turn : ShelfTurn) (domain : String) :
    (sharing.next shelf turn).kept? shelf domain =
      ((sharing.putBack? turn).toList.lookup domain).or (sharing.kept? shelf domain) := by
  cases turn with
  | openDomain other => rfl
  | use handle deed =>
    cases held : sharing.backend? handle with
    | none => simp [next_of_gone held, putBack?, held]
    | some backend =>
      obtain ⟨other, copy, rfl⟩ := sound.memory handle backend held
      rw [next_use held]
      simp only [putBack?, held]
      cases deed.putBack? copy with
      | none => rfl
      | some store =>
        -- The store is put on a shelf that is there, for its own domain.
        obtain ⟨there, found⟩ := Option.isSome_iff_exists.1 sound.there
        by_cases same : other = domain
        · simp [kept?, World.keeping, found, Shelf.get?_keep, same]
        · have apart : (domain == other) = false := by simpa using Ne.symm same
          simp [kept?, World.keeping, found, Shelf.get?_keep, same, List.lookup_cons, apart]

/-- A handle that is not given up in a turn holds its domain, with its copy as its own turn leaves it. -/
theorem backend?_next (sound : sharing.Sound shelf) {number : Nat} {domain : String} {copy : WorkingCopy}
    (held : sharing.backend? number = some (.memory shelf domain copy)) {turn : ShelfTurn}
    (stays : turn ≠ .use number .drop) :
    (sharing.next shelf turn).backend? number =
      some (.memory shelf domain ((turn.deed? number).toList.foldl ShelfDeed.turn copy)) := by
  cases turn with
  | openDomain other =>
    -- The new handle comes behind those from before.
    obtain ⟨within, -⟩ := List.getElem?_eq_some_iff.1 (Option.join_eq_some_iff.1 held)
    rw [next_openDomain, backend?, List.getElem?_append_left within]
    exact held
  | use handle deed =>
    by_cases own : handle = number
    · subst own
      have lives : deed ≠ .drop := fun gone => stays (by rw [gone])
      rw [next_use held, backend?_set held, if_pos rfl, if_neg lives, ShelfTurn.deed?, if_pos rfl]
      rfl
    · rw [ShelfTurn.deed?, if_neg own]
      cases other : sharing.backend? handle with
      | none =>
        rw [next_of_gone other]
        exact held
      | some backend =>
        obtain ⟨_, _, rfl⟩ := sound.memory handle backend other
        rw [next_use other, backend?_set other, if_neg own]
        exact held

/-- After any turns, all handles are on the shelf. -/
theorem Sound.after (sound : sharing.Sound shelf) (turns : List ShelfTurn) : (sharing.after shelf turns).Sound shelf := by
  -- Each turn is taken by a program whose handles are on the shelf.
  induction turns generalizing sharing with
  | nil => exact sound
  | cons turn rest ih => exact ih (sound.next turn)

/-- After any turns, a shelf keeps for a domain what was put back for it last, or else what it kept before. -/
theorem kept?_after (sound : sharing.Sound shelf) (turns : List ShelfTurn) (domain : String) :
    (sharing.after shelf turns).kept? shelf domain =
      ((sharing.history shelf turns).reverse.lookup domain).or (sharing.kept? shelf domain) := by
  induction turns generalizing sharing with
  | nil => rfl
  | cons turn rest ih =>
    -- What the other turns put back comes later than what the first one does.
    have single : (sharing.putBack? turn).toList.reverse = (sharing.putBack? turn).toList := by
      cases sharing.putBack? turn with
      | none => rfl
      | some back => rfl
    have later := ih (sound.next turn)
    rw [kept?_next sound, ← Option.or_assoc, ← List.lookup_append] at later
    rw [history, List.reverse_append, single]
    exact later

/-- After any turns in which it is not given up, a handle holds its domain, with its copy as its own turns leave it. -/
theorem backend?_after (sound : sharing.Sound shelf) {number : Nat} {domain : String} {copy : WorkingCopy}
    (held : sharing.backend? number = some (.memory shelf domain copy)) {turns : List ShelfTurn}
    (stays : ∀ turn ∈ turns, turn ≠ .use number .drop) :
    (sharing.after shelf turns).backend? number =
      some (.memory shelf domain ((turns.filterMap (·.deed? number)).foldl ShelfDeed.turn copy)) := by
  induction turns generalizing sharing copy with
  | nil => exact held
  | cons turn rest ih =>
    obtain ⟨first, others⟩ := List.forall_mem_cons.1 stays
    have later := ih (sound.next turn) (backend?_next sound held first) others
    rw [← List.foldl_append] at later
    rw [List.filterMap_cons]
    cases own : turn.deed? number with
    | none =>
      rw [own] at later
      exact later
    | some deed =>
      -- The handle's own turn is the first of those that its copy goes through.
      rw [own] at later
      exact later

/-- A turn that puts nothing back for a domain leaves what is kept for it. -/
theorem kept?_append (sound : sharing.Sound shelf) (turns : List ShelfTurn) {turn : ShelfTurn} {domain : String}
    (elsewhere : ∀ store, (sharing.after shelf turns).putBack? turn ≠ some (domain, store)) :
    (sharing.after shelf (turns ++ [turn])).kept? shelf domain = (sharing.after shelf turns).kept? shelf domain := by
  have last := kept?_next (sound.after turns) turn domain
  rw [after, List.foldl_append]
  -- A turn that puts something back does so for one domain only.
  cases back : (sharing.after shelf turns).putBack? turn with
  | none =>
    rw [back] at last
    exact last
  | some kept =>
    obtain ⟨other, store⟩ := kept
    have apart : (domain == other) = false := by
      rw [beq_eq_false_iff_ne]
      rintro rfl
      exact elsewhere store back
    rw [back, Option.toList_some, List.lookup_cons, apart] at last
    exact last

/-- From handles on one shelf that begins without domains, each holds what was kept for its domain when it was opened,
changed by its own turns alone, and whoever asks it is told what is in there. The shelf keeps for a domain what was put
back for it last, if anything was. Neither giving up a handle without changes nor anything that is done with another
domain makes a difference to that. -/
theorem isolated {world : World} {shelf : Nat} (bare : world.shelves[shelf]? = some Shelf.empty)
    (turns : List ShelfTurn) :
    (∀ before domain later, turns = before ++ .openDomain domain :: later →
      (∀ turn ∈ later, turn ≠ .use (after shelf ⟨world, []⟩ before).handles.length .drop) →
      ∃ copy, copy = ShelfDeed.copyAfter ((after shelf ⟨world, []⟩ before).kept? shelf domain)
          (later.filterMap (·.deed? (after shelf ⟨world, []⟩ before).handles.length)) ∧
        (after shelf ⟨world, []⟩ turns).backend? (after shelf ⟨world, []⟩ before).handles.length =
          some (.memory shelf domain copy) ∧
        ∀ name key other, ((Backend.memory shelf domain copy).has name key).run other =
          ((copy.store.get? name key).isSome, other)) ∧
    (∀ domain, (after shelf ⟨world, []⟩ turns).kept? shelf domain =
      (history shelf ⟨world, []⟩ turns).reverse.lookup domain) ∧
    (∀ handle domain copy, (after shelf ⟨world, []⟩ turns).backend? handle = some (.memory shelf domain copy) →
      copy.dirty = false → ∀ other, (after shelf ⟨world, []⟩ (turns ++ [.use handle .drop])).kept? shelf other =
        (after shelf ⟨world, []⟩ turns).kept? shelf other) ∧
    ∀ turn domain, (∀ handle deed copy, turn = .use handle deed →
        (after shelf ⟨world, []⟩ turns).backend? handle ≠ some (.memory shelf domain copy)) →
      (after shelf ⟨world, []⟩ (turns ++ [turn])).kept? shelf domain =
        (after shelf ⟨world, []⟩ turns).kept? shelf domain := by
  -- A program that has no handles yet has none elsewhere.
  have sound : Sound shelf ⟨world, []⟩ := by
    refine ⟨by rw [bare]; rfl, ?_⟩
    intro handle backend held
    cases held
  refine ⟨?_, ?_, ?_, ?_⟩
  · rintro before domain later rfl stays
    refine ⟨_, rfl, ?_, Backend.has_memory shelf domain _⟩
    have begun := (sound.after before).next (.openDomain domain)
    -- The new handle comes behind those from before, and takes its turns from then on.
    have held : ((after shelf ⟨world, []⟩ before).next shelf (.openDomain domain)).backend?
        (after shelf ⟨world, []⟩ before).handles.length =
          some (.memory shelf domain ⟨((after shelf ⟨world, []⟩ before).kept? shelf domain).getD {}, false⟩) := by
      rw [next_openDomain, backend?, List.getElem?_concat_length, Option.join_some]
    have kept := backend?_after begun held stays
    rw [after, List.foldl_append]
    exact kept
  · intro domain
    have kept := kept?_after sound turns domain
    -- What was kept before any turn is nothing.
    have nothing : kept? ⟨world, []⟩ shelf domain = none := by
      simp [kept?, bare, Shelf.get?, Shelf.empty]
    rw [nothing, Option.or_none] at kept
    exact kept
  · intro handle domain copy held clean other
    -- A handle without changes puts nothing back when it is given up.
    apply kept?_append sound
    intro store
    simp [putBack?, held, ShelfDeed.putBack?, clean]
  · intro turn domain elsewhere
    apply kept?_append sound
    intro store back
    cases turn with
    | openDomain other => cases back
    | use handle deed =>
      simp only [putBack?] at back
      split at back
      · next other copy held =>
        -- What is put back is for the domain of the handle.
        obtain ⟨_, _, same⟩ := Option.map_eq_some_iff.1 back
        obtain ⟨rfl, -⟩ := Prod.mk.inj same
        obtain ⟨_, _, own⟩ := (sound.after turns).memory handle _ held
        cases own
        exact elsewhere handle deed copy rfl held
      · cases back

/-- Of two handles on a domain, the one that is given up with a change comes last, and the other one does not see the
change. A domain of the same letters is another one. -/
theorem isolated_three :
    (after 0 ⟨{ shelves := [Shelf.empty] }, []⟩ [.openDomain "a", .openDomain "A", .use 0 (.revise ⟨"x", "k", some "1"⟩),
        .openDomain "a", .use 1 .flush, .use 2 (.revise ⟨"X", "K", some "2"⟩), .use 2 .close, .use 0 .drop]).kept? 0 "a" =
      some ⟨[⟨"x", [⟨"k", "1"⟩]⟩]⟩ ∧
    (after 0 ⟨{ shelves := [Shelf.empty] }, []⟩ [.openDomain "a", .openDomain "A", .use 0 (.revise ⟨"x", "k", some "1"⟩),
        .openDomain "a", .use 1 .flush, .use 2 (.revise ⟨"X", "K", some "2"⟩), .use 2 .close, .use 0 .drop]).backend? 2 =
      some (.memory 0 "a" ⟨⟨[⟨"X", [⟨"K", "2"⟩]⟩]⟩, false⟩) := by
  obtain ⟨own, kept, -, -⟩ := @isolated { shelves := [Shelf.empty] } 0 rfl
    [.openDomain "a", .openDomain "A", .use 0 (.revise ⟨"x", "k", some "1"⟩), .openDomain "a", .use 1 .flush,
      .use 2 (.revise ⟨"X", "K", some "2"⟩), .use 2 .close, .use 0 .drop]
  obtain ⟨copy, same, held, -⟩ := own [.openDomain "a", .openDomain "A", .use 0 (.revise ⟨"x", "k", some "1"⟩)] "a"
    [.use 1 .flush, .use 2 (.revise ⟨"X", "K", some "2"⟩), .use 2 .close, .use 0 .drop] rfl (by decide +kernel)
  refine ⟨(kept "a").trans (by decide +kernel), ?_⟩
  have two : copy = ⟨⟨[⟨"X", [⟨"K", "2"⟩]⟩]⟩, false⟩ := same.trans (by decide +kernel)
  rw [two] at held
  exact held

end Sharing

end ConfigStore
