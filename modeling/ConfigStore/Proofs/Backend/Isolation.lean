import ConfigStore.Proofs.Backend.Beside
import ConfigStore.Proofs.Backend.Client

/-! Clients of two domains in keyfiles below one home. What the client of one is told, and the settings file that it
leaves, are the same as without the other client, if neither domain gets in the way of the other. -/

namespace ConfigStore

open FileSystem

/-- A turn of one of two clients. -/
inductive SharedTurn where
  /-- A turn of the client of the domain. -/
  | own (turn : ClientTurn)
  /-- A turn of the client of the neighbour. -/
  | neighbour (turn : ClientTurn)
  deriving DecidableEq, Repr

/-- The turn, if it is one of the client of the domain. -/
def SharedTurn.own? : SharedTurn → Option ClientTurn
  | .own turn => some turn
  | .neighbour _ => none

/-- The surroundings in which nothing fails of its own, with a name at hand for the next temporary file. -/
def World.drawing (world : World) (drawn : TemporaryName) : World :=
  { world with conditions := [{ temporary := drawn }] }

/-- A name at hand changes no files. -/
@[simp] theorem World.files_drawing (world : World) (drawn : TemporaryName) :
    (world.drawing drawn).files = world.files := rfl

/-- What a client with some handles is told, turn by turn, and the surroundings at the end. There is a name for a temporary
file in every turn. -/
def replies (factory : Factory) (domain : String) :
    World → List (Option Backend) → List (ClientTurn × TemporaryName) → List Reply × World
  | world, _, [] => ([], world)
  | world, handles, (turn, drawn) :: rest =>
    let ((reply, left), next) := (turn.run factory domain handles).run (world.drawing drawn)
    let (others, last) := replies factory domain next left rest
    (reply :: others, last)

/-- What the client of a domain is told, turn by turn, while the client of a neighbour takes turns as well, and the
surroundings at the end. -/
def repliesBeside (factory : Factory) (domain neighbour : String) :
    World → List (Option Backend) → List (Option Backend) → List (SharedTurn × TemporaryName) → List Reply × World
  | world, _, _, [] => ([], world)
  | world, mine, theirs, (.own turn, drawn) :: rest =>
    let ((reply, left), next) := (turn.run factory domain mine).run (world.drawing drawn)
    let (others, last) := repliesBeside factory domain neighbour next left theirs rest
    (reply :: others, last)
  | world, mine, theirs, (.neighbour turn, drawn) :: rest =>
    let ((_, left), next) := (turn.run factory neighbour theirs).run (world.drawing drawn)
    repliesBeside factory domain neighbour next mine left rest

/-- A keyfile was not written since the name for the temporary file was taken. -/
def Event.isNameTaken (path : String) : Event → Bool
  | .keyfileUnwritten unwritten (.file _ .exists) => unwritten == path
  | _ => false

/-- It was reported that a name for a temporary file was taken when a path was written. -/
def World.NameTaken (world : World) (path : String) : Prop :=
  ∃ event ∈ world.events, event.isNameTaken path = true

instance (world : World) (path : String) : Decidable (world.NameTaken path) :=
  inferInstanceAs (Decidable (∃ event ∈ world.events, event.isNameTaken path = true))

/-- Where more is reported, no less is. -/
theorem World.NameTaken.mono {world later : World} {path : String} (taken : world.NameTaken path)
    (more : world.events <+: later.events) : later.NameTaken path := by
  obtain ⟨event, member, told⟩ := taken
  exact ⟨event, more.subset member, told⟩

/-- What two clients are told is the same, but for why something could not be done. -/
def Reply.Agrees : Reply → Reply → Prop
  | .done one, .done other => one = .ok () ↔ other = .ok ()
  | one, other => one = other

instance : DecidableRel Reply.Agrees
  | .done one, .done other => inferInstanceAs (Decidable (one = .ok () ↔ other = .ok ()))
  | .done one, .nothing => inferInstanceAs (Decidable (Reply.done one = .nothing))
  | .done one, .text other => inferInstanceAs (Decidable (Reply.done one = .text other))
  | .done one, .truth other => inferInstanceAs (Decidable (Reply.done one = .truth other))
  | .done one, .keys other => inferInstanceAs (Decidable (Reply.done one = .keys other))
  | .nothing, other => inferInstanceAs (Decidable (Reply.nothing = other))
  | .text one, other => inferInstanceAs (Decidable (Reply.text one = other))
  | .truth one, other => inferInstanceAs (Decidable (Reply.truth one = other))
  | .keys one, other => inferInstanceAs (Decidable (Reply.keys one = other))

/-- Whatever is told agrees with itself. -/
theorem Reply.Agrees.refl (reply : Reply) : reply.Agrees reply := by
  cases reply with
  | done result => exact Iff.rfl
  | nothing => rfl
  | text result => rfl
  | truth there => rfl
  | keys result => rfl

/-- What comes of writing does not count but for whether it was done. -/
theorem ClientDeed.outcome_congr (deed : ClientDeed) (copy : WorkingCopy) {one other : Except ConfigError Unit}
    (same : one = .ok () ↔ other = .ok ()) :
    (deed.outcome copy one).1.Agrees (deed.outcome copy other).1 ∧
      (deed.outcome copy one).2 = (deed.outcome copy other).2 := by
  cases deed with
  | flush =>
    refine ⟨same, ?_⟩
    cases one with
    | ok done => rw [same.1 rfl]
    | error error =>
      cases other with
      | ok done => cases same.2 rfl
      | error again => rfl
  | close => exact ⟨same, rfl⟩
  | revise edit => exact ⟨.refl _, rfl⟩
  | get name key => exact ⟨.refl _, rfl⟩
  | has name key => exact ⟨.refl _, rfl⟩
  | keys name => exact ⟨.refl _, rfl⟩
  | drop => exact ⟨.refl _, rfl⟩

/-- What comes of opening a domain: its directory cannot be created, or its settings file is loaded. More is reported
then. -/
theorem Factory.openDomain_cases (home : String) {domain : String} (accepted : domainFault? domain = none) (world : World) :
    ∃ later, later.files = world.files.opened home domain ∧ world.events <+: later.events ∧
      ((∃ error, ¬world.files.Granted home domain ∧
          ((Factory.keyfile home).openDomain domain).after world = (.error error, later)) ∨
        world.files.Granted home domain ∧
          ((Factory.keyfile home).openDomain domain).after world =
            ((openKeyfile (world.files.opened home domain) (settingsPath home domain)).1.map
              fun store => .keyfile (settingsPath home domain) ⟨store, false⟩, later)) := by
  -- The directory comes first, and the settings are loaded only if it is there.
  have located : domainDirectory home domain = .ok (Path.join home domain) :=
    domainDirectory_eq_ok_iff.2 ⟨accepted, rfl⟩
  rw [openDomain_after, World.ensureDomain_after, located, settingsPath, Granted, opened]
  simp only
  cases world.files.ensureDirectories (Path.join home domain) with
  | mk result files =>
    cases result with
    | error fault => exact ⟨{ world with files }, rfl, List.prefix_rfl, .inl ⟨_, by simp, rfl⟩⟩
    | ok done =>
      simp only
      cases openKeyfile files (Path.join (Path.join home domain) configFileName) with
      | mk result events =>
        cases result with
        | error error =>
          exact ⟨{ world with files, events := world.events ++ events }, rfl, List.prefix_append .., .inr ⟨trivial, rfl⟩⟩
        | ok store =>
          refine ⟨{ world with
            files, events := world.events ++ events ++ [.keyfileOpened _ store.sections.length] }, rfl, ?_,
            .inr ⟨trivial, rfl⟩⟩
          simp only [List.append_assoc]
          exact List.prefix_append ..

/-- What comes of writing a store with a name at hand is what comes of replacing the file, and a failure is reported. -/
theorem World.writing_drawing (path : String) (world : World) (drawn : TemporaryName) (store : Keyfile) :
    (((world.drawing drawn).writing path (some store)).1 = .ok () ↔
        ∃ target, (replaceFile world.files path (Utf8.encode store.render) { temporary := drawn }).1 = .ok target) ∧
      ((world.drawing drawn).writing path (some store)).2.files =
        (replaceFile world.files path (Utf8.encode store.render) { temporary := drawn }).2 ∧
      ∀ error, (replaceFile world.files path (Utf8.encode store.render) { temporary := drawn }).1 = .error error →
        .keyfileUnwritten path error ∈ ((world.drawing drawn).writing path (some store)).2.events := by
  rw [writing, writeKeyfile_after, ConfigStore.writeKeyfile]
  have met : (world.drawing drawn).met = { temporary := drawn } := rfl
  have files : (world.drawing drawn).files = world.files := rfl
  rw [met, files]
  cases replaceFile world.files path (Utf8.encode store.render) { temporary := drawn } with
  | mk result files =>
    cases result with
    | ok target => simp
    | error error => simp

/-- Nothing that was reported is lost when a store is written. -/
theorem World.events_writing (path : String) (world : World) (store? : Option Keyfile) :
    world.events <+: (world.writing path store?).2.events := by
  cases store? with
  | none => exact List.prefix_rfl
  | some store =>
    rw [writing, writeKeyfile_after]
    exact List.prefix_append ..

section Reports

/-- Handles on a settings file. -/
def OnSettings (path : String) (handles : List (Option Backend)) : Prop :=
  ∀ backend, some backend ∈ handles → ∃ copy, backend = .keyfile path copy

variable {home domain neighbour : String} {handles mine theirs : List (Option Backend)}

/-- A handle that is used is on the settings file, or given up. -/
theorem OnSettings.set {path : String} (held : OnSettings path handles) (handle : Nat) (left : Option WorkingCopy) :
    OnSettings path (handles.set handle (left.map (.keyfile path))) := by
  intro backend member
  rcases List.mem_or_eq_of_mem_set member with old | new
  · exact held backend old
  · obtain ⟨copy, -, rfl⟩ := Option.map_eq_some_iff.1 new.symm
    exact ⟨copy, rfl⟩

/-- A handle that is new is on the settings file, if it is there. -/
theorem OnSettings.append {path : String} (held : OnSettings path handles) (new : Option WorkingCopy) :
    OnSettings path (handles ++ [new.map (.keyfile path)]) := by
  intro backend member
  rcases List.mem_append.1 member with old | last
  · exact held backend old
  · obtain ⟨copy, -, rfl⟩ := Option.map_eq_some_iff.1 (List.mem_singleton.1 last).symm
    exact ⟨copy, rfl⟩

/-- A turn with handles on the settings file leaves such handles, and nothing that was reported is lost. -/
theorem ClientTurn.run_onSettings (turn : ClientTurn) (accepted : domainFault? domain = none)
    (held : OnSettings (settingsPath home domain) handles) (world : World) :
    ∃ told left later, (turn.run (.keyfile home) domain handles).run world = ((told, left), later) ∧
      OnSettings (settingsPath home domain) left ∧ world.events <+: later.events := by
  -- A turn opens a new handle at the end, or leaves the one it uses or gives it up.
  cases turn with
  | openDomain =>
    obtain ⟨later, -, more, opened⟩ := Factory.openDomain_cases home accepted world
    rw [run_openDomain]
    rcases opened with ⟨error, -, failed⟩ | ⟨-, opened⟩
    · rw [failed]
      exact ⟨_, _, _, rfl, held.append none, more⟩
    · rw [opened]
      cases (openKeyfile (world.files.opened home domain) (settingsPath home domain)).1 with
      | error error => exact ⟨_, _, _, rfl, held.append none, more⟩
      | ok store => exact ⟨_, _, _, rfl, held.append (some ⟨store, false⟩), more⟩
  | use handle deed =>
    cases used : handles[handle]?.join with
    | none =>
      rw [run_use_of_gone used]
      exact ⟨_, _, _, rfl, held, List.prefix_rfl⟩
    | some backend =>
      obtain ⟨copy, rfl⟩ := held backend (List.mem_of_getElem? (Option.join_eq_some_iff.1 used))
      obtain ⟨later, ran, -, more⟩ := deed.run_keyfile (settingsPath home domain) copy world
      rw [run_use used, ran]
      exact ⟨_, _, _, rfl, held.set handle _, (world.events_writing ..).trans more⟩

/-- Nothing that was reported is lost while a client takes its turns. -/
theorem events_replies (accepted : domainFault? domain = none) (turns : List (ClientTurn × TemporaryName)) (world : World)
    (held : OnSettings (settingsPath home domain) handles) :
    world.events <+: (replies (.keyfile home) domain world handles turns).2.events := by
  induction turns generalizing world handles with
  | nil => exact List.prefix_rfl
  | cons turn rest ih =>
    obtain ⟨turn, drawn⟩ := turn
    obtain ⟨told, left, later, ran, still, more⟩ := turn.run_onSettings accepted held (world.drawing drawn)
    rw [replies, ran]
    exact more.trans (ih later still)

/-- Nor is it while two clients take turns. -/
theorem events_repliesBeside (accepted : domainFault? domain = none) (theirAccepted : domainFault? neighbour = none)
    (turns : List (SharedTurn × TemporaryName)) (world : World) (held : OnSettings (settingsPath home domain) mine)
    (theirHeld : OnSettings (settingsPath home neighbour) theirs) :
    world.events <+: (repliesBeside (.keyfile home) domain neighbour world mine theirs turns).2.events := by
  induction turns generalizing world mine theirs with
  | nil => exact List.prefix_rfl
  | cons turn rest ih =>
    obtain ⟨turn, drawn⟩ := turn
    cases turn with
    | own turn =>
      obtain ⟨told, left, later, ran, still, more⟩ := turn.run_onSettings accepted held (world.drawing drawn)
      rw [repliesBeside, ran]
      exact more.trans (ih later still theirHeld)
    | neighbour turn =>
      obtain ⟨told, left, later, ran, still, more⟩ := turn.run_onSettings theirAccepted theirHeld (world.drawing drawn)
      rw [repliesBeside, ran]
      exact more.trans (ih later held still)

end Reports

section Tenants

variable {files : FileSystem} {home domain neighbour : String}

/-- Handles on the settings file of a domain that was opened. -/
structure Held (files : FileSystem) (home domain : String) (after : FileSystem) (handles : List (Option Backend)) :
    Prop where
  /-- They are on the settings file. -/
  settings : OnSettings (settingsPath home domain) handles
  /-- The domain was opened if there is one. -/
  opened : ∀ backend, some backend ∈ handles → files.Granted home domain ∧ Whole files home domain after

namespace Held

variable {after later : FileSystem} {handles : List (Option Backend)}

/-- Handles stay what they are when all directories stay. -/
theorem carries (held : Held files home domain after handles) (carries : after.Carries later) :
    Held files home domain later handles where
  settings := held.settings
  opened backend member :=
    (held.opened backend member).imp_right fun whole place made => carries.directory place (whole place made)

/-- A handle that is used stays what it is, or is given up. -/
theorem set (held : Held files home domain after handles) {handle : Nat} {backend : Backend}
    (used : handles[handle]?.join = some backend) (left : Option WorkingCopy) :
    Held files home domain after (handles.set handle (left.map (.keyfile (settingsPath home domain)))) where
  settings := held.settings.set handle left
  opened _ _ := held.opened backend (List.mem_of_getElem? (Option.join_eq_some_iff.1 used))

/-- A new handle is one on the settings file, if the domain was opened. -/
theorem append (held : Held files home domain after handles) (new : Option WorkingCopy)
    (opened : ∀ copy, new = some copy → files.Granted home domain ∧ Whole files home domain after) :
    Held files home domain after (handles ++ [new.map (.keyfile (settingsPath home domain))]) where
  settings := held.settings.append new
  opened backend member := by
    rcases List.mem_append.1 member with old | last
    · exact held.opened backend old
    · obtain ⟨copy, own, -⟩ := Option.map_eq_some_iff.1 (List.mem_singleton.1 last).symm
      exact opened copy own

end Held

/-- A client that is alone, and one beside the client of a neighbour, since the files were the same. -/
structure Tenants (files : FileSystem) (home domain neighbour : String) (alone shared : World)
    (mine theirs : List (Option Backend)) : Prop where
  /-- The files look the same to the client. -/
  twins : Twins files home domain neighbour alone.files shared.files
  /-- Both have the same handles on the settings of the domain. -/
  mine : Held files home domain alone.files mine
  /-- The neighbour has handles on its own. -/
  theirs : Held files home neighbour shared.files theirs

namespace Tenants

variable {alone shared : World} {mine theirs : List (Option Backend)}
  (neighbours : Neighbours files home domain neighbour)
  (tenants : Tenants files home domain neighbour alone shared mine theirs)

include neighbours tenants

/-- When the domain is opened, its clients are told the same, and have the same handles then. -/
theorem openDomain (drawn drawn' : TemporaryName) :
    ∃ told again left later written,
      (ClientTurn.openDomain.run (.keyfile home) domain mine).run (alone.drawing drawn) = ((told, left), later) ∧
      (ClientTurn.openDomain.run (.keyfile home) domain mine).run (shared.drawing drawn') = ((again, left), written) ∧
      again.Agrees told ∧ Tenants files home domain neighbour later written left theirs := by
  -- It comes to the same in both files, so that the same is loaded, if the directory is there.
  obtain ⟨opens, again, twins⟩ := tenants.twins.openDomain neighbours
  obtain ⟨later, same, -, first⟩ := Factory.openDomain_cases home neighbours.mine.accepted (alone.drawing drawn)
  obtain ⟨written, same', -, second⟩ := Factory.openDomain_cases home neighbours.mine.accepted (shared.drawing drawn')
  rw [World.files_drawing] at same first same' second
  rw [opens.granted] at first
  rw [again.granted] at second
  have whole : Whole files home domain later.files := same ▸ opens.whole
  have held := tenants.mine.carries (same ▸ opens.extended.grows.keeps.carries : alone.files.Carries later.files)
  have theirs' := tenants.theirs.carries (same' ▸ again.extended.grows.keeps.carries : shared.files.Carries written.files)
  rw [← same, ← same'] at twins
  rw [← same] at first
  rw [← same'] at second
  have unopened : ∀ error error' : ConfigError, (Reply.done (.error error)).Agrees (.done (.error error')) := by
    intro error error'
    simp [Reply.Agrees]
  have gone : Tenants files home domain neighbour later written (mine ++ [none]) theirs :=
    ⟨twins, held.append none (by simp), theirs'⟩
  rw [ClientTurn.run_openDomain, ClientTurn.run_openDomain]
  -- The directory is created in both or in none, and what is loaded then is the same.
  rcases first with ⟨error, refused, one⟩ | ⟨granted, one⟩
  · rcases second with ⟨error', -, two⟩ | ⟨granted, -⟩
    · rw [one, two]
      exact ⟨_, _, _, _, _, rfl, rfl, unopened _ _, gone⟩
    · exact absurd granted refused
  · rcases second with ⟨error', refused, -⟩ | ⟨-, two⟩
    · exact absurd granted refused
    · have loads : openKeyfile written.files (settingsPath home domain) =
          openKeyfile later.files (settingsPath home domain) := by
        rw [openKeyfile, openKeyfile, (twins.alike neighbours (neighbours.mine.sound granted) whole).contents]
      rw [one, two, loads]
      cases (openKeyfile later.files (settingsPath home domain)).1 with
      | error error => exact ⟨_, _, _, _, _, rfl, rfl, unopened _ _, gone⟩
      | ok store =>
        refine ⟨_, _, _, _, _, rfl, rfl, Iff.rfl, twins, held.append (some ⟨store, false⟩) ?_, theirs'⟩
        exact fun _ _ => ⟨granted, whole⟩

/-- When the store of the domain is put back, that is done in both or in none, unless a temporary name is taken. -/
theorem writing (granted : files.Granted home domain) (whole : Whole files home domain alone.files)
    (store? : Option Keyfile) (drawn drawn' : TemporaryName) :
    ((alone.drawing drawn).writing (settingsPath home domain) store?).2.NameTaken (settingsPath home domain) ∨
      ((shared.drawing drawn').writing (settingsPath home domain) store?).2.NameTaken (settingsPath home domain) ∨
      (((alone.drawing drawn).writing (settingsPath home domain) store?).1 = .ok () ↔
        ((shared.drawing drawn').writing (settingsPath home domain) store?).1 = .ok ()) ∧
      alone.files.Carries ((alone.drawing drawn).writing (settingsPath home domain) store?).2.files ∧
      shared.files.Carries ((shared.drawing drawn').writing (settingsPath home domain) store?).2.files ∧
      Twins files home domain neighbour ((alone.drawing drawn).writing (settingsPath home domain) store?).2.files
        ((shared.drawing drawn').writing (settingsPath home domain) store?).2.files := by
  -- A name that is taken is reported, which is why it is one of the three outcomes.
  cases store? with
  | none => exact .inr (.inr ⟨Iff.rfl, .refl _, .refl _, tenants.twins⟩)
  | some store =>
    obtain ⟨done, written, reported⟩ := alone.writing_drawing (settingsPath home domain) drawn store
    obtain ⟨done', written', reported'⟩ := shared.writing_drawing (settingsPath home domain) drawn' store
    rw [done, done', written, written']
    rcases tenants.twins.write neighbours granted whole (Utf8.encode store.render) drawn drawn' with
      ⟨directory, taken⟩ | ⟨directory, taken⟩ | ⟨both, rest⟩
    · exact .inl ⟨_, reported _ taken, by simp [Event.isNameTaken]⟩
    · exact .inr (.inl ⟨_, reported' _ taken, by simp [Event.isNameTaken]⟩)
    · exact .inr (.inr ⟨both.symm, rest⟩)

/-- When the client of the domain uses a handle, it is told the same, and has the same handles then, unless a temporary name
is taken. -/
theorem use (handle : Nat) (deed : ClientDeed) (drawn drawn' : TemporaryName) :
    ∃ told again left left' later written,
      ((ClientTurn.use handle deed).run (.keyfile home) domain mine).run (alone.drawing drawn) = ((told, left), later) ∧
      ((ClientTurn.use handle deed).run (.keyfile home) domain mine).run (shared.drawing drawn') =
        ((again, left'), written) ∧
      (later.NameTaken (settingsPath home domain) ∨ written.NameTaken (settingsPath home domain) ∨
        again.Agrees told ∧ left' = left ∧ Tenants files home domain neighbour later written left theirs) := by
  cases used : mine[handle]?.join with
  | none =>
    -- The handle is none, or was given up, in both.
    rw [ClientTurn.run_use_of_gone used, ClientTurn.run_use_of_gone used]
    exact ⟨_, _, _, _, _, _, rfl, rfl, .inr (.inr ⟨rfl, rfl, tenants.twins, tenants.mine, tenants.theirs⟩)⟩
  | some backend =>
    have member := List.mem_of_getElem? (Option.join_eq_some_iff.1 used)
    obtain ⟨copy, rfl⟩ := tenants.mine.settings backend member
    obtain ⟨granted, whole⟩ := tenants.mine.opened _ member
    obtain ⟨later, ran, same, more⟩ := deed.run_keyfile (settingsPath home domain) copy (alone.drawing drawn)
    obtain ⟨written, ran', same', more'⟩ := deed.run_keyfile (settingsPath home domain) copy (shared.drawing drawn')
    rw [ClientTurn.run_use used, ClientTurn.run_use used, ran, ran']
    refine ⟨_, _, _, _, _, _, rfl, rfl, ?_⟩
    rcases tenants.writing neighbours granted whole (deed.putBack? copy) drawn drawn' with
      taken | taken | ⟨both, carries, carries', twins⟩
    · exact .inl (taken.mono more)
    · exact .inr (.inl (taken.mono more'))
    · obtain ⟨agrees, left⟩ := deed.outcome_congr copy both.symm
      rw [← same] at carries twins
      rw [← same'] at carries' twins
      refine .inr (.inr ⟨agrees, by rw [left], twins, (tenants.mine.carries carries).set used _, ?_⟩)
      exact tenants.theirs.carries carries'

/-- Whatever the client of the neighbour does makes no difference. -/
theorem neighbourTurn (turn : ClientTurn) (drawn : TemporaryName) : ∃ told left later,
    (turn.run (.keyfile home) neighbour theirs).run (shared.drawing drawn) = ((told, left), later) ∧
      Tenants files home domain neighbour alone later mine left := by
  cases turn with
  | openDomain =>
    obtain ⟨opens, twins⟩ := tenants.twins.openNeighbour neighbours
    obtain ⟨later, same, -, opened⟩ := Factory.openDomain_cases home neighbours.theirs.accepted (shared.drawing drawn)
    rw [World.files_drawing] at same opened
    rw [opens.granted] at opened
    have whole : Whole files home neighbour later.files := same ▸ opens.whole
    have held := tenants.theirs.carries (same ▸ opens.extended.grows.keeps.carries : shared.files.Carries later.files)
    rw [← same] at twins
    have gone : Tenants files home domain neighbour alone later mine (theirs ++ [none]) :=
      ⟨twins, tenants.mine, held.append none (by simp)⟩
    rw [ClientTurn.run_openDomain]
    rcases opened with ⟨error, -, failed⟩ | ⟨granted, opened⟩
    · rw [failed]
      exact ⟨_, _, _, rfl, gone⟩
    · rw [opened]
      cases (openKeyfile (shared.files.opened home neighbour) (settingsPath home neighbour)).1 with
      | error error => exact ⟨_, _, _, rfl, gone⟩
      | ok store =>
        exact ⟨_, _, _, rfl, twins, tenants.mine, held.append (some ⟨store, false⟩) fun _ _ => ⟨granted, whole⟩⟩
  | use handle deed =>
    cases used : theirs[handle]?.join with
    | none =>
      rw [ClientTurn.run_use_of_gone used]
      exact ⟨_, _, _, rfl, tenants.twins, tenants.mine, tenants.theirs⟩
    | some backend =>
      have member := List.mem_of_getElem? (Option.join_eq_some_iff.1 used)
      obtain ⟨copy, rfl⟩ := tenants.theirs.settings backend member
      obtain ⟨granted, whole⟩ := tenants.theirs.opened _ member
      obtain ⟨later, ran, same, -⟩ := deed.run_keyfile (settingsPath home neighbour) copy (shared.drawing drawn)
      rw [ClientTurn.run_use used, ran]
      refine ⟨_, _, _, rfl, ?_⟩
      have wrote : shared.files.Carries later.files ∧ Twins files home domain neighbour alone.files later.files := by
        rw [same]
        cases deed.putBack? copy with
        | none => exact ⟨.refl _, tenants.twins⟩
        | some store =>
          rw [(shared.writing_drawing (settingsPath home neighbour) drawn store).2.1]
          exact tenants.twins.writeNeighbour neighbours whole granted (Utf8.encode store.render) drawn
      exact ⟨wrote.2, tenants.mine, (tenants.theirs.carries wrote.1).set used _⟩

/-- Turn by turn, the client of the domain is told what it is told without the neighbour, and the files stay alike, unless a
temporary name is taken. -/
theorem replies (turns : List (SharedTurn × TemporaryName)) (own : List (ClientTurn × TemporaryName))
    (same : own.map Prod.fst = turns.filterMap fun turn => turn.1.own?)
    (free : ¬(ConfigStore.replies (.keyfile home) domain alone mine own).2.NameTaken (settingsPath home domain))
    (free' : ¬(repliesBeside (.keyfile home) domain neighbour shared mine theirs turns).2.NameTaken
      (settingsPath home domain)) :
    List.Forall₂ Reply.Agrees (repliesBeside (.keyfile home) domain neighbour shared mine theirs turns).1
        (ConfigStore.replies (.keyfile home) domain alone mine own).1 ∧
      Twins files home domain neighbour (ConfigStore.replies (.keyfile home) domain alone mine own).2.files
        (repliesBeside (.keyfile home) domain neighbour shared mine theirs turns).2.files := by
  -- A turn of the domain is taken in both, and one of the neighbour in the shared files only.
  induction turns generalizing alone shared mine theirs own with
  | nil =>
    obtain rfl := List.map_eq_nil_iff.1 same
    exact ⟨.nil, tenants.twins⟩
  | cons turn rest ih =>
    obtain ⟨turn, drawn'⟩ := turn
    cases turn with
    | own turn =>
      obtain ⟨first, more, rfl, rfl, others⟩ := List.map_eq_cons_iff.1 same
      obtain ⟨turn, drawn⟩ := first
      have step : ∃ told again left left' later written,
          (turn.run (.keyfile home) domain mine).run (alone.drawing drawn) = ((told, left), later) ∧
          (turn.run (.keyfile home) domain mine).run (shared.drawing drawn') = ((again, left'), written) ∧
          (later.NameTaken (settingsPath home domain) ∨ written.NameTaken (settingsPath home domain) ∨
            again.Agrees told ∧ left' = left ∧ Tenants files home domain neighbour later written left theirs) := by
        cases turn with
        | openDomain =>
          obtain ⟨told, again, left, later, written, one, two, agrees, after⟩ := tenants.openDomain neighbours drawn drawn'
          exact ⟨told, again, left, left, later, written, one, two, .inr (.inr ⟨agrees, rfl, after⟩)⟩
        | use handle deed => exact tenants.use neighbours handle deed drawn drawn'
      obtain ⟨told, again, left, left', later, written, one, two, either⟩ := step
      rw [ConfigStore.replies, one] at free ⊢
      rw [repliesBeside, two] at free' ⊢
      simp only at free free' ⊢
      have accepted := neighbours.mine.accepted
      rcases either with taken | taken | ⟨agrees, rfl, after⟩
      · -- What is reported stays so.
        obtain ⟨_, _, _, ran, held, -⟩ := turn.run_onSettings accepted tenants.mine.settings (alone.drawing drawn)
        cases one.symm.trans ran
        exact absurd (taken.mono (events_replies accepted more later held)) free
      · obtain ⟨_, _, _, ran, held, -⟩ := turn.run_onSettings accepted tenants.mine.settings (shared.drawing drawn')
        cases two.symm.trans ran
        have kept := events_repliesBeside accepted neighbours.theirs.accepted rest written held tenants.theirs.settings
        exact absurd (taken.mono kept) free'
      · obtain ⟨told, twins⟩ := ih after more others free free'
        exact ⟨.cons agrees told, twins⟩
    | neighbour turn =>
      obtain ⟨told, left, later, ran, after⟩ := tenants.neighbourTurn neighbours turn drawn'
      rw [repliesBeside, ran] at free' ⊢
      exact ih after own same free free'

end Tenants

end Tenants

/-- If neither of two domains gets in the way of the other, the client of one is told what it is told without the other,
whatever the client of the other does in between, and leaves the same settings file. The names of temporary files may be
others, but none is taken. -/
theorem repliesBeside_agree {world : World} {home domain neighbour : String}
    (neighbours : Neighbours world.files home domain neighbour) (turns : List (SharedTurn × TemporaryName))
    (own : List (ClientTurn × TemporaryName)) (same : own.map Prod.fst = turns.filterMap fun turn => turn.1.own?)
    (free : ¬(replies (.keyfile home) domain world [] own).2.NameTaken (settingsPath home domain))
    (free' : ¬(repliesBeside (.keyfile home) domain neighbour world [] [] turns).2.NameTaken (settingsPath home domain)) :
    List.Forall₂ Reply.Agrees (repliesBeside (.keyfile home) domain neighbour world [] [] turns).1
        (replies (.keyfile home) domain world [] own).1 ∧
      ∀ mode content, (repliesBeside (.keyfile home) domain neighbour world [] [] turns).2.files.stat
          (settingsPath home domain) = .ok (.file mode content) ↔
        (replies (.keyfile home) domain world [] own).2.files.stat (settingsPath home domain) =
          .ok (.file mode content) := by
  -- At first nobody has a handle, and the files are the same.
  have idle : ∀ domain files, Held world.files home domain files [] := fun domain files =>
    ⟨fun _ member => absurd member List.not_mem_nil, fun _ member => absurd member List.not_mem_nil⟩
  have tenants : Tenants world.files home domain neighbour world world [] [] :=
    ⟨.refl neighbours, idle domain world.files, idle neighbour world.files⟩
  obtain ⟨agree, twins⟩ := tenants.replies neighbours turns own same free free'
  exact ⟨agree, twins.stat_file_iff neighbours⟩

/-- Files in which the settings of a domain are a link to a file beside its directory. -/
def linkedSettings : FileSystem :=
  (((({} : FileSystem).put ["store"] (.directory Node.directoryMode)).put ["store", "settings"]
    (.file Node.fileMode [])).put ["a"] (.directory Node.directoryMode)).put ["a", "config"] (.link "../store/settings")

/-- There, the domain and one below it do not get in each other's way. -/
theorem neighbours_linked : Neighbours linkedSettings "/" "a" "a/b" where
  mine := ⟨anchored_of_root rfl (by decide), .inl (by decide), ⟨[], [], based_of_root (by decide)⟩, by decide⟩
  theirs := ⟨anchored_of_root rfl (by decide), .inl (by decide), ⟨[], [], based_of_root (by decide)⟩, by decide⟩
  ahead := staysOff_of_seen (show linkedSettings.staysOff? "/" "a/b" "a" 20 = true by decide +kernel)
  behind := staysOff_of_seen (show linkedSettings.staysOff? "/" "a" "a/b" 20 = true by decide +kernel)

/-- The same name is at hand in every turn. -/
def withDefaultName {Turn : Type} (turns : List Turn) : List (Turn × TemporaryName) :=
  turns.map (·, default)

/-- The two clients take turns, and set the same key to different values. -/
def linkedTurns : List SharedTurn :=
  [.own .openDomain, .neighbour .openDomain, .own (.use 0 (.revise ⟨"s", "k", some "v"⟩)),
    .neighbour (.use 0 (.revise ⟨"s", "k", some "w"⟩)), .own (.use 0 .flush), .neighbour (.use 0 .drop),
    .own .openDomain, .own (.use 1 (.get "s" "k"))]

/-- Neither notices the other, and what the domain sets is written where the link leads. -/
theorem repliesBeside_agree_linked :
    Neighbours linkedSettings "/" "a" "a/b" ∧
    (List.Forall₂ Reply.Agrees
        (repliesBeside (.keyfile "/") "a" "a/b" { files := linkedSettings } [] [] (withDefaultName linkedTurns)).1
        (replies (.keyfile "/") "a" { files := linkedSettings } []
          (withDefaultName (linkedTurns.filterMap SharedTurn.own?))).1 ∧
      ∀ mode content,
        (repliesBeside (.keyfile "/") "a" "a/b" { files := linkedSettings } [] [] (withDefaultName linkedTurns)).2.files.stat
            (settingsPath "/" "a") = .ok (.file mode content) ↔
          (replies (.keyfile "/") "a" { files := linkedSettings } []
            (withDefaultName (linkedTurns.filterMap SharedTurn.own?))).2.files.stat (settingsPath "/" "a") =
            .ok (.file mode content)) ∧
    (repliesBeside (.keyfile "/") "a" "a/b" { files := linkedSettings } [] [] (withDefaultName linkedTurns)).1.getLast? =
      some (.text (.ok "v")) ∧
    (repliesBeside (.keyfile "/") "a" "a/b" { files := linkedSettings } [] [] (withDefaultName linkedTurns)).2.files.node?
      ["a", "config"] = some (.link "../store/settings") := by
  have agree := @repliesBeside_agree { files := linkedSettings } "/" "a" "a/b" neighbours_linked (withDefaultName linkedTurns)
    (withDefaultName (linkedTurns.filterMap SharedTurn.own?)) rfl (by decide +kernel) (by decide +kernel)
  exact ⟨neighbours_linked, agree, by decide +kernel, by decide +kernel⟩

/-- Files in which a link leads from one directory to another. -/
def linkedFiles : FileSystem :=
  (({} : FileSystem).put ["b"] (.directory Node.directoryMode)).put ["a"] (.link "b")

/-- Files in which settings are below one directory, and another one beside it is missing. -/
def settledFiles : FileSystem :=
  ((({} : FileSystem).put ["y"] (.directory Node.directoryMode)).put ["y", "a"] (.directory Node.directoryMode)).put
    ["y", "a", "config"] (.file Node.fileMode [])

/-- Where two domains get in each other's way, the neighbour can be noticed: it makes a directory in place of a settings
file, it writes the settings to which a link leads, it creates a directory that is not created behind a point, or it makes
one from which the home leads up again to settings that could not be reached. -/
theorem repliesBeside_disagree :
    (domainFault? "a" = none ∧ domainFault? "a/config" = none ∧ domainFault? "b" = none ∧ domainFault? "a/." = none ∧
      domainFault? "a/b" = none) ∧
    (Path.names "a" ≠ Path.names "a/config" ∧ Path.names "a" ≠ Path.names "b" ∧ Path.names "a/." ≠ Path.names "a/b") ∧
    ¬List.Forall₂ Reply.Agrees
      (repliesBeside (.keyfile "/") "a" "a/config" {} [] [] (withDefaultName [.neighbour .openDomain, .own .openDomain])).1
      (replies (.keyfile "/") "a" {} [] (withDefaultName [.openDomain])).1 ∧
    ¬List.Forall₂ Reply.Agrees
      (repliesBeside (.keyfile "/") "a" "b" { files := linkedFiles } [] []
        (withDefaultName [.neighbour .openDomain, .neighbour (.use 0 (.revise ⟨"s", "k", some "v"⟩)),
          .neighbour (.use 0 .flush), .own .openDomain, .own (.use 0 (.get "s" "k"))])).1
      (replies (.keyfile "/") "a" { files := linkedFiles } [] (withDefaultName [.openDomain, .use 0 (.get "s" "k")])).1 ∧
    ¬List.Forall₂ Reply.Agrees
      (repliesBeside (.keyfile "/") "a/." "a/b" {} [] [] (withDefaultName [.neighbour .openDomain, .own .openDomain])).1
      (replies (.keyfile "/") "a/." {} [] (withDefaultName [.openDomain])).1 ∧
    (repliesBeside (.keyfile "/x/../y") "a" "b" { files := settledFiles } [] []
      (withDefaultName [.neighbour .openDomain])).2.files.stat (settingsPath "/x/../y" "a") = .ok (.file Node.fileMode []) ∧
    (replies (.keyfile "/x/../y") "a" { files := settledFiles } [] []).2.files.stat (settingsPath "/x/../y" "a") =
      .error .notFound := by
  decide +kernel

end ConfigStore
