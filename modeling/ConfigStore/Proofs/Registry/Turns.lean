import Mathlib.Data.List.Induction
import ConfigStore.Proofs.FirstMatch
import ConfigStore.Proofs.World
import ConfigStore.Registry.Builder

/-! A registry that is changed again and again. Its names stay apart, and the factory of a name is the one that was
registered under it last, unless that was taken out since. -/

namespace ConfigStore

/-- A change of a registry. -/
inductive RegistryTurn where
  | register (factory : Factory)
  | unregister (name : String)
  | clear

namespace RegistryTurn

/-- Makes a change. -/
def make (registry : Registry) : RegistryTurn → Effect Registry
  | .register factory => registry.register factory
  | .unregister name => do return (← registry.unregister name).2
  | .clear => return registry.clear

/-- The registry that a change makes. -/
def apply (registry : Registry) : RegistryTurn → Registry
  | .register factory => registry.insert factory
  | .unregister name => registry.erase name
  | .clear => registry.clear

/-- Whether a change settles what the factory of a name is. -/
def concerns (name : String) : RegistryTurn → Bool
  | .register factory => sameName factory.name name
  | .unregister other => sameName other name
  | .clear => true

/-- The factory of a name after a change that settles it. -/
def left? : RegistryTurn → Option Factory
  | .register factory => some factory
  | .unregister _ => none
  | .clear => none

/-- A factory is in force for a name when it was registered under it, in whatever case, and no change since has
concerned the name. -/
def InForce (turns : List RegistryTurn) (name : String) (factory : Factory) : Prop :=
  ∃ before since, turns = before ++ .register factory :: since ∧ sameName factory.name name = true ∧
    ∀ turn ∈ since, turn.concerns name = false

/-- The last change settles what is in force for the names that it concerns, and leaves the rest. -/
theorem inForce_append_singleton {turns : List RegistryTurn} {turn : RegistryTurn} {name : String} {factory : Factory} :
    InForce (turns ++ [turn]) name factory ↔
      if turn.concerns name = true then turn.left? = some factory else InForce turns name factory := by
  constructor
  · rintro ⟨before, since, split, named, passed⟩
    -- The registration is the last change, or it came before that.
    rcases List.eq_nil_or_concat since with rfl | ⟨earlier, last, rfl⟩
    · obtain ⟨-, rfl⟩ := List.append_inj' split rfl |>.imp_right List.singleton_inj.1
      rw [concerns, if_pos named, left?]
    · rw [List.concat_eq_append, ← List.cons_append, ← List.append_assoc] at split
      obtain ⟨rfl, rfl⟩ := List.append_inj' split rfl |>.imp_right List.singleton_inj.1
      rw [List.concat_eq_append] at passed
      rw [if_neg (by simp [passed turn])]
      exact ⟨before, earlier, rfl, named, fun other member => passed other (List.mem_append_left _ member)⟩
  · intro settled
    by_cases concerned : turn.concerns name = true
    · rw [if_pos concerned] at settled
      cases turn with
      | register other =>
        cases settled
        exact ⟨turns, [], rfl, concerned, by simp⟩
      | unregister other => cases settled
      | clear => cases settled
    · rw [if_neg concerned] at settled
      obtain ⟨before, since, rfl, named, passed⟩ := settled
      refine ⟨before, since ++ [turn], by simp, named, fun other member => ?_⟩
      rcases List.mem_append.1 member with earlier | last
      · exact passed other earlier
      · rw [List.mem_singleton.1 last, ← Bool.not_eq_true]
        exact concerned

end RegistryTurn

namespace Registry

variable {registry : Registry} {name : String} {factory : Factory}

/-- Makes changes one after the other. -/
def turns (registry : Registry) (turns : List RegistryTurn) : Effect Registry :=
  turns.foldlM RegistryTurn.make registry

/-- No two factories have the same name. -/
def Distinct (registry : Registry) : Prop :=
  registry.factories.Pairwise fun one other => sameName one.name other.name = false

/-- The factory of a name is one whose name is the same. -/
theorem sameName_of_factory? (found : registry.factory? name = some factory) : sameName factory.name name = true :=
  (exists_of_find? found).1

/-- There is no factory of a name when none has a name that is the same. -/
theorem factory?_eq_none_iff :
    registry.factory? name = none ↔ ∀ factory ∈ registry.factories, sameName factory.name name = false := by
  rw [factory?, List.find?_eq_none]
  simp

/-- Of distinct names, only one is the same as a given one. -/
theorem Distinct.sameName_of_mem {front back : List Factory} (distinct : registry.Distinct)
    (split : registry.factories = front ++ factory :: back) (named : sameName factory.name name = true) :
    (∀ other ∈ front, sameName other.name name = false) ∧ ∀ other ∈ back, sameName other.name name = false := by
  -- The factory differs from those in front of it and from those behind it.
  rw [Distinct, split, List.pairwise_append, List.pairwise_cons] at distinct
  obtain ⟨-, ⟨behind, -⟩, before⟩ := distinct
  constructor
  · intro other member
    rw [← sameName_congr_right named]
    exact before other member factory List.mem_cons_self
  · intro other member
    rw [sameName_comm, ← sameName_congr named]
    exact behind other member

/-- A factory takes the place of the one of its name. -/
theorem Distinct.insert_of_mem {front back : List Factory} {old : Factory} (distinct : registry.Distinct)
    (split : registry.factories = front ++ old :: back) (named : sameName old.name factory.name = true) :
    registry.insert factory = { registry with factories := front ++ factory :: back } := by
  -- Nothing in front has the name, so that it is the first match which is replaced.
  obtain ⟨passed, -⟩ := distinct.sameName_of_mem split named
  have present : (front ++ old :: back).any (fun other => sameName other.name factory.name) = true :=
    List.any_eq_true.2 ⟨old, List.mem_append_right _ List.mem_cons_self, named⟩
  rw [insert, split, upsert_eq, if_pos present, changeFirst_append_cons passed named]

/-- A factory of a new name comes last. -/
theorem insert_of_absent (absent : ∀ other ∈ registry.factories, sameName other.name factory.name = false) :
    registry.insert factory = { registry with factories := registry.factories ++ [factory] } := by
  rw [insert, upsert_eq, if_neg]
  simpa using absent

/-- The factory of a name is taken out from its place. -/
theorem Distinct.erase_of_mem {front back : List Factory} (distinct : registry.Distinct)
    (split : registry.factories = front ++ factory :: back) (named : sameName factory.name name = true) :
    registry.erase name = { registry with factories := front ++ back } := by
  rw [erase, split, eraseP_append_cons (distinct.sameName_of_mem split named).1 named]

/-- Without a factory of the name, nothing is taken out. -/
theorem erase_of_absent (absent : ∀ other ∈ registry.factories, sameName other.name name = false) :
    registry.erase name = registry := by
  rw [erase, List.eraseP_of_forall_not fun other member => ne_true_of_eq_false (absent other member)]

/-- A factory that is there is that of its name. -/
theorem Distinct.factory?_of_mem {front back : List Factory} (distinct : registry.Distinct)
    (split : registry.factories = front ++ factory :: back) (named : sameName factory.name name = true) :
    registry.factory? name = some factory := by
  obtain ⟨passed, -⟩ := distinct.sameName_of_mem split named
  have before : front.find? (fun other => sameName other.name name) = none := by simpa using passed
  rw [factory?, split, List.find?_append, before, Option.none_or, List.find?_cons_of_pos (by exact named)]

/-- Registering reports, and makes the change. -/
theorem register_run (registry : Registry) (factory : Factory) (world : World) :
    ∃ events, (registry.register factory).run world = (registry.insert factory, { world with events }) :=
  ⟨_, rfl⟩

/-- Taking a factory out reports if there is one, and makes the change. -/
theorem unregister_run (registry : Registry) (name : String) (world : World) :
    ∃ events, (registry.unregister name).run world =
      ((registry.factory? name, registry.erase name), { world with events }) := by
  -- For want of a factory, the registry without it is the same.
  rw [unregister]
  cases found : registry.factory? name with
  | none =>
    rw [erase_of_absent (factory?_eq_none_iff.1 found)]
    exact ⟨world.events, rfl⟩
  | some factory => exact ⟨world.events ++ [.backendUnregistered name], rfl⟩

/-- A change reports, and makes a registry that depends on the one before only. -/
theorem make_run (registry : Registry) (turn : RegistryTurn) (world : World) :
    ∃ events, (turn.make registry).run world = (turn.apply registry, { world with events }) := by
  cases turn with
  | register factory => exact register_run registry factory world
  | unregister name =>
    obtain ⟨events, done⟩ := unregister_run registry name world
    rw [RegistryTurn.make, Effect.run_bind, done]
    exact ⟨events, rfl⟩
  | clear => exact ⟨world.events, rfl⟩

/-- Changes report, and make a registry that depends on the one before only. -/
theorem turns_run (registry : Registry) (turns : List RegistryTurn) (world : World) :
    ∃ events, (registry.turns turns).run world = (turns.foldl RegistryTurn.apply registry, { world with events }) := by
  -- The registry is handed from one change to the next.
  induction turns generalizing registry world with
  | nil => exact ⟨world.events, rfl⟩
  | cons turn rest ih =>
    obtain ⟨before, made⟩ := make_run registry turn world
    obtain ⟨events, later⟩ := ih (turn.apply registry) { world with events := before }
    rw [turns] at later ⊢
    rw [List.foldlM_cons, Effect.run_bind, made]
    exact ⟨events, later⟩

/-- Changes leave what was asked for. -/
theorem selection_turns (registry : Registry) (turns : List RegistryTurn) :
    (turns.foldl RegistryTurn.apply registry).selection = registry.selection := by
  induction turns generalizing registry with
  | nil => rfl
  | cons turn rest ih =>
    rw [List.foldl_cons, ih]
    cases turn <;> rfl

/-- A change keeps names apart. -/
theorem Distinct.apply (distinct : registry.Distinct) (turn : RegistryTurn) : (turn.apply registry).Distinct := by
  cases turn with
  | register factory =>
    -- What is replaced has the name already, and what is added comes for want of it.
    by_cases there : ∃ old ∈ registry.factories, sameName old.name factory.name = true
    · obtain ⟨old, member, named⟩ := there
      obtain ⟨front, back, split⟩ := List.append_of_mem member
      obtain ⟨before, behind⟩ := distinct.sameName_of_mem split named
      rw [RegistryTurn.apply, distinct.insert_of_mem split named, Distinct, List.pairwise_append, List.pairwise_cons]
      rw [Distinct, split, List.pairwise_append, List.pairwise_cons] at distinct
      obtain ⟨ahead, ⟨-, rest⟩, across⟩ := distinct
      refine ⟨ahead, ⟨fun other member => ?_, rest⟩, fun one member other there => ?_⟩
      · rw [sameName_comm]
        exact behind other member
      · rcases List.mem_cons.1 there with rfl | later
        · exact before one member
        · exact across one member other (List.mem_cons_of_mem _ later)
    · have absent : ∀ other ∈ registry.factories, sameName other.name factory.name = false := by simpa using there
      rw [RegistryTurn.apply, insert_of_absent absent, Distinct]
      refine List.pairwise_append.2 ⟨distinct, List.pairwise_singleton .., fun one member other last => ?_⟩
      rw [List.mem_singleton.1 last]
      exact absent one member
  | unregister name => exact distinct.sublist List.eraseP_sublist
  | clear => exact .nil

/-- Changes keep names apart. -/
theorem Distinct.turns (distinct : registry.Distinct) (turns : List RegistryTurn) :
    (turns.foldl RegistryTurn.apply registry).Distinct := by
  induction turns generalizing registry with
  | nil => exact distinct
  | cons turn rest ih => exact ih (distinct.apply turn)

/-- A change settles the factory of a name that it concerns, and leaves that of any other. -/
theorem Distinct.factory?_apply (distinct : registry.Distinct) (turn : RegistryTurn) (name : String) :
    (turn.apply registry).factory? name =
      if turn.concerns name = true then turn.left? else registry.factory? name := by
  cases turn with
  | register factory =>
    rw [RegistryTurn.apply, factory?, insert, RegistryTurn.concerns, RegistryTurn.left?]
    by_cases named : sameName factory.name name = true
    · -- Under another spelling of the name, the look-up finds the same.
      simp only [← sameName_congr_right named]
      rw [if_pos (sameName_refl _), find?_upsert_self (by simp) (by simp)]
      cases registry.factories.find? fun other => sameName other.name factory.name with
      | none => rfl
      | some old => rfl
    · rw [if_neg named]
      rw [Bool.not_eq_true] at named
      refine find?_upsert_other (fun other same => ⟨?_, named⟩) named
      rw [sameName_congr same]
      exact named
  | unregister other =>
    rw [RegistryTurn.apply, RegistryTurn.concerns, RegistryTurn.left?]
    by_cases named : sameName other name = true
    · rw [if_pos named, factory?_eq_none_iff]
      simp only [← sameName_congr_right named]
      -- Only one factory has the name, and that is gone.
      cases found : registry.factory? other with
      | none =>
        rw [erase_of_absent (factory?_eq_none_iff.1 found)]
        exact factory?_eq_none_iff.1 found
      | some factory =>
        obtain ⟨here, front, back, split, -⟩ := exists_of_find? found
        obtain ⟨before, behind⟩ := distinct.sameName_of_mem split here
        rw [distinct.erase_of_mem split here]
        intro one member
        exact (List.mem_append.1 member).elim (before one) (behind one)
    · rw [if_neg named]
      refine find?_eraseP_other fun one same => ?_
      rw [sameName_congr same, ← Bool.not_eq_true]
      exact named
  | clear => rfl

/-- The factory of a name is the one that is in force. -/
theorem factory?_turns (turns : List RegistryTurn) (selection : Selection) (name : String) (factory : Factory) :
    (turns.foldl RegistryTurn.apply ⟨[], selection⟩).factory? name = some factory ↔
      RegistryTurn.InForce turns name factory := by
  -- The last change tells, or else those before it.
  induction turns using List.reverseRecOn with
  | nil => simp [factory?, RegistryTurn.InForce]
  | append_singleton turns turn ih =>
    have empty : Distinct ⟨[], selection⟩ := List.Pairwise.nil
    have distinct := empty.turns turns
    rw [List.foldl_append, List.foldl_cons, List.foldl_nil, distinct.factory?_apply turn name,
      RegistryTurn.inForce_append_singleton]
    split
    · rfl
    · exact ih

end Registry

/-- Wanted backends are registered one after the other. -/
theorem RegistryPlan.registerAll_after (plan : RegistryPlan) (wanted : List WantedBackend) {registry all : Registry}
    {world registered : World} (done : (plan.registerAll registry wanted).after world = (.ok all, registered)) :
    ∃ factories : List Factory, all = (factories.map .register).foldl RegistryTurn.apply registry := by
  -- Each backend has its factory, or the plan fails.
  induction wanted generalizing registry world with
  | nil =>
    cases done
    exact ⟨[], rfl⟩
  | cons first rest ih =>
    rw [registerAll, Action.after_bind] at done
    cases made : (plan.factory first).after world with
    | mk result changed =>
      cases result with
      | error error => simp [made] at done
      | ok factory =>
        obtain ⟨events, run⟩ := Registry.register_run registry factory changed
        simp only [made, Action.after_bind, Action.after_ofEffect, run] at done
        obtain ⟨factories, rfl⟩ := ih done
        exact ⟨factory :: factories, rfl⟩

/-- A registry that is built has read what is asked for, and then had factories registered. -/
theorem RegistryPlan.build_after {plan : RegistryPlan} {registry : Registry} {world built : World}
    (done : plan.build.after world = (.ok registry, built)) :
    ∃ (selector : Selector) (factories : List Factory),
      registry = (factories.map .register).foldl RegistryTurn.apply ⟨[], (selector.read.run world).1⟩ := by
  -- Once there is a selector, what is asked for is read, and the last step only reports.
  have registers : ∀ selector : Selector, (do
      let selection ← selector.read
      let registry ← plan.registerAll ⟨[], selection⟩ plan.backends
      World.report [.registryBuilt registry.names registry.selected]
      return registry : Action Registry).after world = (.ok registry, built) → ∃ factories : List Factory,
        registry = (factories.map .register).foldl RegistryTurn.apply ⟨[], (selector.read.run world).1⟩ := by
    intro selector done
    simp only [Action.after_bind, Action.after_ofEffect] at done
    cases all : (plan.registerAll ⟨[], (selector.read.run world).1⟩ plan.backends).after
        (selector.read.run world).2 with
    | mk result registered =>
      cases result with
      | error error => simp [all] at done
      | ok registry =>
        simp only [all] at done
        cases done
        exact plan.registerAll_after plan.backends all
  rw [build] at done
  -- Looking for the selector changes nothing.
  cases chosen : plan.selector with
  | some selector =>
    rw [chosen] at done
    exact ⟨selector, registers selector done⟩
  | none =>
    rw [chosen] at done
    exact ⟨_, registers _ done⟩

end ConfigStore
