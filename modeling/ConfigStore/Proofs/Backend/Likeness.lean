import ConfigStore.Proofs.Backend.Client
import ConfigStore.Proofs.Backend.Placed
import ConfigStore.Proofs.Keyfile.Alike

/-! A client that keeps its domain on a shelf, and one that keeps it in a keyfile and does the same. As long as files can
be written, both are told the same, although a section without entries stays on the shelf and is not in the file. -/

namespace ConfigStore

/-- Whether a backend has changes to put back, if it remembers. -/
def Backend.dirty? : Backend → Option Bool
  | .keyfile _ copy => some copy.dirty
  | .memory _ _ copy => some copy.dirty
  | .faulty .. => none

/-- What can be seen of a turn. -/
structure Sight where
  /-- What the client is told. -/
  reply : Reply
  /-- Which of its handles have changes to put back then. -/
  dirty : List (Option Bool)
  /-- What is reported meanwhile. -/
  events : List Event
  deriving DecidableEq, Repr

/-- What can be seen of a client with some handles, turn by turn. -/
def sights (factory : Factory) (domain : String) : World → List (Option Backend) → List ClientTurn → List Sight
  | _, _, [] => []
  | world, handles, turn :: rest =>
    let ((reply, left), next) := (turn.run factory domain handles).run world
    ⟨reply, left.map (·.bind Backend.dirty?), next.events.drop world.events.length⟩ ::
      sights factory domain next left rest

/-- Whether a client is told that something could not be done. -/
def Reply.isFailure : Reply → Bool
  | .done (.error _) => true
  | _ => false

/-- Whether an event tells that a keyfile could not be written. -/
def Event.isFailure : Event → Bool
  | .keyfileUnwritten .. => true
  | _ => false

/-- A turn in which whatever was to be done with files was done. -/
structure Sight.Smooth (sight : Sight) : Prop where
  /-- The client is not told of a failure. -/
  done : sight.reply.isFailure = false
  /-- Nor is one reported, as when a handle is given up. -/
  written : ∀ event ∈ sight.events, event.isFailure = false

instance (sight : Sight) : Decidable sight.Smooth :=
  decidable_of_iff (sight.reply.isFailure = false ∧ ∀ event ∈ sight.events, event.isFailure = false)
    ⟨fun ⟨done, written⟩ => ⟨done, written⟩, fun ⟨done, written⟩ => ⟨done, written⟩⟩

/-- What two clients are told is the same, but that a section without entries may be there for one of them only. -/
def Reply.Alike : Reply → Reply → Prop
  | .keys one, .keys other => ∀ keys, keys ≠ [] → (one = .ok keys ↔ other = .ok keys)
  | one, other => one = other

/-- Two clients see the same in a turn. -/
structure Sight.Alike (one other : Sight) : Prop where
  /-- They are told the same. -/
  reply : one.reply.Alike other.reply
  /-- The same handles have changes to put back. -/
  dirty : one.dirty = other.dirty

/-- What a handle on a shelf and one on a keyfile hold. -/
structure Twin where
  /-- The store of the handle on the shelf. -/
  shelved : Keyfile
  /-- The store of the handle on the keyfile. -/
  filed : Keyfile
  /-- Whether there are changes to put back. -/
  dirty : Bool

namespace Twin

/-- The handle on the shelf. -/
def memory (shelf : Nat) (domain : String) (twin : Twin) : Backend :=
  .memory shelf domain ⟨twin.shelved, twin.dirty⟩

/-- The handle on the keyfile. -/
def keyfile (path : String) (twin : Twin) : Backend :=
  .keyfile path ⟨twin.filed, twin.dirty⟩

/-- The stores are alike, and the one of the keyfile comes back from its text. -/
structure Sound (twin : Twin) : Prop where
  /-- The stores are alike. -/
  alike : twin.shelved.Alike twin.filed
  /-- The store of the keyfile is carried by the format. -/
  carried : twin.filed.Carried
  /-- Its lines fit. -/
  fits : twin.filed.Fits defaultLineLimit

end Twin

namespace WorkingCopy

/-- Lines that fit still do when a change that fits is made. -/
theorem fits_edit {copy : WorkingCopy} {limit : Nat} (fits : copy.store.Fits limit) {edit : Edit}
    (own : edit.Fits limit) : (copy.edit edit).store.Fits limit := by
  rw [edit_eq, Edit.apply]
  cases change : edit.change with
  | some value => exact fits.set (own value change).2
  | none => exact fits.remove _ _

end WorkingCopy

/-- A change makes a difference to keyfiles that are alike, or to none of them. -/
theorem Edit.apply_bne_alike {one other : Keyfile} (alike : one.Alike other) (edit : Edit) :
    (edit.apply one != one) = (edit.apply other != other) := by
  -- What counts is the value of the key, which is the same.
  have same := (Keyfile.revision_setOrRemove one edit.name edit.key edit.change).eq_iff
  have again := (Keyfile.revision_setOrRemove other edit.name edit.key edit.change).eq_iff
  rw [← alike.get?] at again
  rw [Bool.eq_iff_iff, bne_iff_ne, bne_iff_ne, Ne, Ne, apply, apply, same, again]

/-- Twins stay alike in whatever is done with both, and what the clients are told is alike. -/
theorem Twin.Sound.outcome {twin : Twin} (sound : twin.Sound) (deed : ClientDeed)
    (fits : ∀ edit, deed = .revise edit → edit.Fits defaultLineLimit) :
    (deed.outcome ⟨twin.shelved, twin.dirty⟩ (.ok ())).1.Alike (deed.outcome ⟨twin.filed, twin.dirty⟩ (.ok ())).1 ∧
      ∃ left : Option Twin, (∀ twin ∈ left, twin.Sound) ∧
        (deed.outcome ⟨twin.shelved, twin.dirty⟩ (.ok ())).2 = left.map (fun twin => ⟨twin.shelved, twin.dirty⟩) ∧
        (deed.outcome ⟨twin.filed, twin.dirty⟩ (.ok ())).2 = left.map (fun twin => ⟨twin.filed, twin.dirty⟩) := by
  obtain ⟨shelved, filed, dirty⟩ := twin
  obtain ⟨alike, carried, lines⟩ := sound
  have kept : ∀ dirty, ∀ twin ∈ some (⟨shelved, filed, dirty⟩ : Twin), twin.Sound := by
    rintro dirty _ ⟨⟩
    exact ⟨alike, carried, lines⟩
  cases deed with
  | revise edit =>
    have own := fits edit rfl
    have whole : ((⟨filed, dirty⟩ : WorkingCopy).edit edit).store.Carried := WorkingCopy.carried_edit carried own
    have short : ((⟨filed, dirty⟩ : WorkingCopy).edit edit).store.Fits defaultLineLimit :=
      WorkingCopy.fits_edit lines own
    rw [WorkingCopy.edit_eq] at whole short
    refine ⟨rfl, some ⟨edit.apply shelved, edit.apply filed, dirty || edit.apply filed != filed⟩, ?_, ?_, ?_⟩
    · rintro _ ⟨⟩
      exact ⟨alike.setOrRemove _ _ _, whole, short⟩
    · rw [ClientDeed.outcome, WorkingCopy.edit_eq, edit.apply_bne_alike alike]
      rfl
    · rw [ClientDeed.outcome, WorkingCopy.edit_eq]
      rfl
  | get name key =>
    refine ⟨?_, _, kept dirty, rfl, rfl⟩
    simp only [ClientDeed.outcome, Reply.Alike, alike.get?]
  | has name key =>
    refine ⟨?_, _, kept dirty, rfl, rfl⟩
    simp only [ClientDeed.outcome, Reply.Alike, WorkingCopy.has, alike.get?]
  | keys name =>
    refine ⟨?_, _, kept dirty, rfl, rfl⟩
    intro keys filled
    have same : shelved.keys? name = some keys ↔ filed.keys? name = some keys := alike.keys? filled
    cases one : shelved.keys? name with
    | none =>
      cases other : filed.keys? name with
      | none => simp
      | some found =>
        rw [one, other] at same
        simpa using same
    | some shown =>
      cases other : filed.keys? name with
      | none =>
        rw [one, other] at same
        simpa using same
      | some found =>
        rw [one, other] at same
        simpa using same
  | flush => exact ⟨rfl, _, kept false, rfl, rfl⟩
  | close => exact ⟨rfl, _, kept false, rfl, rfl⟩
  | drop => exact ⟨rfl, none, by simp, rfl, rfl⟩

/-- What is written to a path without a report of failure is written. -/
theorem World.writing_of_unreported {path : String} {world : World} {store? : Option Keyfile}
    (smooth : ∀ event ∈ (world.writing path store?).2.events.drop world.events.length, event.isFailure = false) :
    (world.writing path store?).1 = .ok () ∧
      ∀ store, store? = some store → ∃ target, replaceFile world.files path (Utf8.encode store.render) world.met =
        (.ok target, (world.writing path store?).2.files) := by
  cases store? with
  | none => exact ⟨rfl, by simp⟩
  | some store =>
    simp only [writing] at smooth ⊢
    rcases writeKeyfile_cases store path world with ⟨error, failed⟩ | ⟨target, files, done, written⟩
    · rw [failed] at smooth
      cases smooth (.keyfileUnwritten path error) (by simp)
    · rw [written]
      refine ⟨rfl, ?_⟩
      rintro _ ⟨⟩
      exact ⟨target, done⟩

/-- What a shelf keeps for a domain. -/
def World.kept? (world : World) (shelf : Nat) (domain : String) : Option Keyfile :=
  world.shelves[shelf]?.bind (·.get? domain)

section Together

variable {shelf : Nat} {home domain : String} {base : Location} {files after : FileSystem} {kept : Option Keyfile}

/-- The directory of a domain is there, and what would be loaded is like what is kept on a shelf. -/
structure Stocked (home domain : String) (files : FileSystem) (kept : Option Keyfile) : Prop where
  /-- The files are sound. -/
  anchored : files.Anchored
  /-- The domain has a directory below the configuration home. -/
  located : domainDirectory home domain = .ok (Path.join home domain)
  /-- The directory is there. -/
  there : files.ensureDirectories (Path.join home domain) = (.ok (), files)
  /-- What would be loaded comes back from its text, and is like what is kept. -/
  loaded : ∃ store, (openKeyfile files (settingsPath home domain)).1 = .ok store ∧ (kept.getD {}).Alike store ∧
    store.Carried ∧ store.Fits defaultLineLimit

/-- Nothing is below the base to which the home leads. -/
structure Bare (home : String) (base : Location) (files : FileSystem) : Prop where
  /-- The files are sound. -/
  anchored : files.Anchored
  /-- The home leads to the base. -/
  based : files.Based home base []
  /-- Nothing is below. -/
  bare : ∀ place, place ≠ [] → files.node? (base ++ place) = none

/-- A domain that is opened above a bare base is stocked with nothing. -/
theorem Bare.stocked (bare : Bare home base files) (located : domainDirectory home domain = .ok (Path.join home domain))
    (made : files.ensureDirectories (Path.join home domain) = (.ok (), after)) {store : Keyfile}
    (loaded : (openKeyfile after (settingsPath home domain)).1 = .ok store) : Stocked home domain after none := by
  obtain ⟨empty, there⟩ := ensureDirectories_of_bare bare.based bare.bare located (openKeyfile_spec loaded).1 made
  have anchored := bare.anchored.changes (.ensureDirectories files (Path.join home domain))
  rw [made] at anchored
  refine ⟨anchored, located, there, {}, ?_, fun _ => rfl, ⟨by simp, .nil⟩, by simp [Keyfile.Fits]⟩
  rw [openKeyfile, empty]

/-- A store that is written and put on the shelf alike leaves the domain stocked with it. -/
theorem Stocked.put (stocked : Stocked home domain files kept) {twin : Twin} (sound : twin.Sound) {target : String}
    {conditions : Conditions}
    (done : replaceFile files (settingsPath home domain) (Utf8.encode twin.filed.render) conditions = (.ok target, after)) :
    Stocked home domain after (some twin.shelved) := by
  obtain ⟨store, loaded, -⟩ := stocked.loaded
  -- What is read again are the bytes that were written, and the directory is there.
  obtain ⟨reread, there⟩ := reread_of_replaceFile stocked.anchored (openKeyfile_spec loaded).1
    (domainDirectory_spec stocked.located).2 configFileName_names.1 configFileName_names.2 done
  obtain ⟨alike, fits⟩ := sound.carried.reload sound.fits
  have anchored := stocked.anchored.replaceFile (settingsPath home domain) (Utf8.encode twin.filed.render) conditions
  rw [done] at anchored
  exact ⟨anchored, stocked.located, there, _, openKeyfile_of_contents reread,
    fun name => (sound.alike name).trans (alike name).symm, loadBytes_carried _ _, fits⟩

/-- A client on a shelf and one on keyfiles that have come to be alike. -/
structure Together (shelf : Nat) (home domain : String) (base : Location) (memory keyfile : World)
    (twins : List (Option Twin)) : Prop where
  /-- The shelf is there. -/
  present : memory.shelves[shelf]?.isSome
  /-- What the handles hold is alike. -/
  sound : ∀ twin, some twin ∈ twins → twin.Sound
  /-- The same is kept for the domain, or nothing was done yet. -/
  stock : Stocked home domain keyfile.files (memory.kept? shelf domain) ∨
    twins = [] ∧ memory.kept? shelf domain = none ∧ Bare home base keyfile.files

namespace Together

variable {memory keyfile : World} {twins : List (Option Twin)}

/-- When both clients open the domain, the new handles are alike. -/
theorem openDomain (together : Together shelf home domain base memory keyfile twins) {backend : Backend} {opened : World}
    (done : ((Factory.keyfile home).openDomain domain).after keyfile = (.ok backend, opened)) (events : List Event) :
    ∃ twin : Twin, backend = twin.keyfile (settingsPath home domain) ∧
      Backend.memory shelf domain ⟨(memory.kept? shelf domain).getD {}, false⟩ =
        twin.memory shelf domain ∧
      Together shelf home domain base { memory with events } opened (twins ++ [some twin]) := by
  obtain ⟨located, made, -, store, loaded, rfl⟩ := Factory.openDomain_spec done
  have stocked : Stocked home domain opened.files (memory.kept? shelf domain) := by
    rcases together.stock with stocked | ⟨-, unkept, bare⟩
    · have same := stocked.there
      rw [made, Prod.mk.injEq] at same
      rw [same.2]
      exact stocked
    · rw [unkept]
      exact bare.stocked located made loaded
  obtain ⟨again, same, alike, carried, fits⟩ := stocked.loaded
  obtain rfl : store = again := Except.ok.inj (loaded.symm.trans same)
  refine ⟨⟨_, store, false⟩, rfl, rfl, together.present, ?_, .inl stocked⟩
  intro twin member
  rcases List.mem_append.1 member with old | new
  · exact together.sound twin old
  · obtain rfl := Option.some.inj (List.mem_singleton.1 new)
    exact ⟨alike, carried, fits⟩

/-- When both clients use handles that are alike, those are alike afterwards, and so is what is put back. -/
theorem use (together : Together shelf home domain base memory keyfile twins) {handle : Nat} {twin : Twin}
    (held : some twin ∈ twins) {deed : ClientDeed} {written : World}
    (done : ∀ store, deed.putBack? ⟨twin.filed, twin.dirty⟩ = some store → ∃ target,
      replaceFile keyfile.files (settingsPath home domain) (Utf8.encode store.render) keyfile.met =
        (.ok target, written.files))
    (same : deed.putBack? ⟨twin.filed, twin.dirty⟩ = none → written.files = keyfile.files) {left : Option Twin}
    (sound : ∀ twin ∈ left, twin.Sound) :
    Together shelf home domain base (memory.keeping shelf domain (deed.putBack? ⟨twin.shelved, twin.dirty⟩)) written
      (twins.set handle left) := by
  have stocked : Stocked home domain keyfile.files (memory.kept? shelf domain) := by
    refine together.stock.resolve_right ?_
    rintro ⟨missing, -⟩
    rw [missing] at held
    cases held
  have sounds : ∀ other, some other ∈ twins.set handle left → other.Sound := by
    intro other member
    rcases List.mem_or_eq_of_mem_set member with old | new
    · exact together.sound other old
    · exact sound other new.symm
  rw [ClientDeed.putBack?] at done same ⊢
  cases puts : deed.puts twin.dirty with
  | true =>
    simp only [puts, if_true] at done ⊢
    obtain ⟨target, replaced⟩ := done _ rfl
    refine ⟨by simpa [World.keeping] using together.present, sounds, .inl ?_⟩
    obtain ⟨front, found⟩ := Option.isSome_iff_exists.1 together.present
    have kept : (memory.keeping shelf domain (some twin.shelved)).kept? shelf domain = some twin.shelved := by
      simp [World.kept?, World.keeping, found, Shelf.get?_keep]
    rw [kept]
    exact stocked.put (together.sound twin held) replaced
  | false =>
    simp only [puts, Bool.false_eq_true, if_false] at same ⊢
    refine ⟨together.present, sounds, .inl ?_⟩
    rw [same trivial]
    exact stocked

end Together

/-- A handle of one client is there exactly if that of the other is. -/
theorem join_getElem?_map {α β : Type} (change : α → β) (items : List (Option α)) (index : Nat) :
    (items.map (·.map change))[index]?.join = items[index]?.join.map change := by
  rw [List.getElem?_map]
  cases items[index]? with
  | none => rfl
  | some item => rfl

/-- A turn of both clients leaves them alike if whatever is to be done with files is done, and they are told the same. -/
theorem Together.turn {memory keyfile later written : World} {twins : List (Option Twin)}
    (together : Together shelf home domain base memory keyfile twins) (turn : ClientTurn)
    (fits : ∀ edit ∈ turn.edit?, edit.Fits defaultLineLimit) {told again : Reply}
    {shelved filed : List (Option Backend)}
    (one : (turn.run (.memory shelf) domain (twins.map (·.map (Twin.memory shelf domain)))).run memory =
      ((told, shelved), later))
    (other : (turn.run (.keyfile home) domain (twins.map (·.map (Twin.keyfile (settingsPath home domain))))).run keyfile =
      ((again, filed), written))
    (done : again.isFailure = false)
    (smooth : ∀ event ∈ written.events.drop keyfile.events.length, event.isFailure = false) :
    told.Alike again ∧ ∃ left, shelved = left.map (·.map (Twin.memory shelf domain)) ∧
      filed = left.map (·.map (Twin.keyfile (settingsPath home domain))) ∧
      Together shelf home domain base later written left := by
  cases turn with
  | openDomain =>
    have shown : ((Factory.memory shelf).openDomain domain).after memory =
        (.ok (.memory shelf domain ⟨(memory.kept? shelf domain).getD {}, false⟩),
          { memory with events := memory.events ++ [.memoryOpened domain] }) := rfl
    rw [ClientTurn.run_openDomain] at one other
    rw [shown] at one
    cases one
    cases opened : ((Factory.keyfile home).openDomain domain).after keyfile with
    | mk result world =>
      rw [opened] at other
      cases result with
      | error error =>
        cases other
        cases done
      | ok backend =>
        cases other
        obtain ⟨twin, rfl, same, after⟩ := together.openDomain opened (memory.events ++ [.memoryOpened domain])
        rw [same]
        exact ⟨rfl, twins ++ [some twin], by simp, by simp, after⟩
  | use handle deed =>
    cases held : twins[handle]?.join with
    | none =>
      -- Neither client has the handle.
      rw [ClientTurn.run_use_of_gone (by rw [join_getElem?_map, held]; rfl)] at one other
      cases one
      cases other
      exact ⟨rfl, twins, rfl, rfl, together⟩
    | some twin =>
      have member : some twin ∈ twins := List.mem_of_getElem? (Option.join_eq_some_iff.1 held)
      rw [ClientTurn.run_use (by rw [join_getElem?_map, held]; rfl), Twin.memory, ClientDeed.run_memory] at one
      cases one
      obtain ⟨after, ran, files, reported⟩ :=
        deed.run_keyfile (settingsPath home domain) ⟨twin.filed, twin.dirty⟩ keyfile
      rw [ClientTurn.run_use (by rw [join_getElem?_map, held]; rfl), Twin.keyfile, ran] at other
      cases other
      -- Whatever is reported by the write is reported in the turn.
      obtain ⟨result, replaced⟩ := World.writing_of_unreported fun event member =>
        smooth event ((reported.drop _).subset member)
      obtain ⟨alike, left, sound, first, second⟩ := (together.sound twin member).outcome deed fun edit same =>
        fits edit (same ▸ rfl)
      rw [first, result, second]
      refine ⟨alike, twins.set handle left, ?_, ?_, together.use member ?_ ?_ sound⟩
      · rw [List.map_set, Option.map_map]
        rfl
      · rw [List.map_set, Option.map_map]
        rfl
      · rw [files]
        exact replaced
      · intro unwritten
        rw [files, unwritten]
        rfl

/-- Clients that have come to be alike see the same as long as whatever is to be done with files is done. -/
theorem Together.sights_alike {memory keyfile : World} {twins : List (Option Twin)}
    (together : Together shelf home domain base memory keyfile twins) {turns : List ClientTurn}
    (fits : ∀ turn ∈ turns, ∀ edit ∈ turn.edit?, edit.Fits defaultLineLimit)
    (smooth : ∀ sight ∈ sights (.keyfile home) domain keyfile
      (twins.map (·.map (Twin.keyfile (settingsPath home domain)))) turns, sight.Smooth) :
    List.Forall₂ Sight.Alike
      (sights (.memory shelf) domain memory (twins.map (·.map (Twin.memory shelf domain))) turns)
      (sights (.keyfile home) domain keyfile (twins.map (·.map (Twin.keyfile (settingsPath home domain)))) turns) := by
  induction turns generalizing memory keyfile twins with
  | nil => exact .nil
  | cons turn rest ih =>
    rcases one : (turn.run (.memory shelf) domain (twins.map (·.map (Twin.memory shelf domain)))).run memory with
      ⟨⟨told, shelved⟩, later⟩
    rcases other : (turn.run (.keyfile home) domain
      (twins.map (·.map (Twin.keyfile (settingsPath home domain))))).run keyfile with ⟨⟨again, filed⟩, written⟩
    simp only [sights, one, other] at smooth ⊢
    obtain ⟨first, others⟩ := List.forall_mem_cons.1 smooth
    obtain ⟨own, more⟩ := List.forall_mem_cons.1 fits
    obtain ⟨reply, left, rfl, rfl, after⟩ := together.turn turn own one other first.done first.written
    refine .cons ⟨reply, ?_⟩ (ih after more others)
    -- The flags are those of the twins on both sides.
    rw [List.map_map, List.map_map]
    refine List.map_congr_left fun twin _ => ?_
    cases twin with
    | none => rfl
    | some twin => rfl

end Together

/-- A client on a fresh shelf and one on keyfiles below an empty base see the same in every turn, whatever they do with
any number of handles on their domain, if all that they set is carried by the format and fits, and whatever is to be done
with files is done. -/
theorem sights_memory_alike_keyfile {shelf : Nat} {home domain : String} {base : Location} {memory keyfile : World}
    (fresh : memory.shelves[shelf]? = some Shelf.empty) (bare : Bare home base keyfile.files) {turns : List ClientTurn}
    (fits : ∀ turn ∈ turns, ∀ edit ∈ turn.edit?, edit.Fits defaultLineLimit)
    (smooth : ∀ sight ∈ sights (.keyfile home) domain keyfile [] turns, sight.Smooth) :
    List.Forall₂ Sight.Alike (sights (.memory shelf) domain memory [] turns)
      (sights (.keyfile home) domain keyfile [] turns) := by
  have kept : memory.kept? shelf domain = none := by
    rw [World.kept?, fresh]
    rfl
  have together : Together shelf home domain base memory keyfile [] :=
    ⟨by rw [fresh]; rfl, by simp, .inr ⟨rfl, kept, bare⟩⟩
  exact together.sights_alike fits smooth

/-- Nothing is in files that consist of a root only. -/
theorem bare_root : Bare "/" [] {} where
  anchored := FileSystem.anchored_empty
  based := FileSystem.based_root
  bare place filled := by
    cases place with
    | nil => exact absurd rfl filled
    | cons name rest => rfl

/-- A section that is emptied and written is gone from the file, and comes back at its end in a new spelling. -/
def emptied : List ClientTurn :=
  [.openDomain, .use 0 (.revise ⟨"A", "k", some "v"⟩), .use 0 (.revise ⟨"b", "k", some "v"⟩), .use 0 .flush,
    .openDomain, .use 1 (.revise ⟨"a", "K", none⟩), .use 1 .close,
    .openDomain, .use 2 (.keys "a"), .use 2 (.revise ⟨"a", "x", some "w"⟩), .use 0 (.get "a" "K"), .use 2 .drop,
    .openDomain, .use 3 (.keys "A"), .use 0 .drop]

/-- Its keys are none on the shelf and not there in the file, and otherwise the clients see the same. -/
theorem sights_memory_alike_keyfile_emptied :
    List.Forall₂ Sight.Alike (sights (.memory 0) "d" { shelves := [.empty] } [] emptied)
      (sights (.keyfile "/") "d" {} [] emptied) ∧
    (sights (.memory 0) "d" { shelves := [.empty] } [] emptied)[8]?.map Sight.reply = some (.keys (.ok [])) ∧
    (sights (.keyfile "/") "d" {} [] emptied)[8]?.map Sight.reply = some (.keys (.error (.sectionNotFound "a"))) := by
  exact ⟨sights_memory_alike_keyfile rfl bare_root (by decide) (by decide +kernel), by decide +kernel, by decide +kernel⟩

end ConfigStore
