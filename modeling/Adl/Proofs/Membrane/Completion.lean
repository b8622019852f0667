import Adl.Proofs.Binding.Soundness
import Mathlib.Data.List.Nodup

namespace Adl

open Step Context

/-! The membranes of all that is loaded are complete. Controllers name interfaces that there are,
what they leave to no sub-component is named by one of them, and what a composite passes through
has an interface on either side. -/

namespace Interface

/-- An interface seen from the other side of the membrane. -/
structure IsTwinOf (internal external : Interface) : Prop where
  name : internal.name = external.name
  signature : internal.signature = external.signature
  cardinality : internal.cardinality = external.cardinality
  contingency : internal.contingency = external.contingency
  role : internal.role = external.role.flipped

theorem isTwinOf_of_dual {internal external : Interface}
    (same : external.dual = internal.withoutTyped) : internal.IsTwinOf external where
  name := (congrArg Interface.name same).symm
  signature := (congrArg Interface.signature same).symm
  cardinality := (congrArg Interface.cardinality same).symm
  contingency := (congrArg Interface.contingency same).symm
  role := (congrArg Interface.role same).symm

end Interface

namespace Definition

/-- A binding starts or ends at an interface of the definition itself. -/
def UsesOnThis (definition : Definition) (name : String) : Prop :=
  ∃ binding ∈ definition.bindings,
    binding.client.isThis = true ∧ binding.client.interface = name ∨
      binding.server.isThis = true ∧ binding.server.interface = name

/-- Controllers, sources and interfaces fit together. -/
structure HasMembrane (definition : Definition) : Prop where
  known : ∀ controller ∈ definition.controllers, ∀ interface ∈ controller.interfaces,
    interface.name ∈ (if interface.isInternal then definition.internalInterfaces
      else definition.interfaces).map (·.name)
  used : ∀ internal ∈ definition.internalInterfaces,
    ∃ controller ∈ definition.controllers, controller.implementsInternal internal.name = true
  implemented : definition.isAbstract = false → definition.isType = false →
    definition.sources = [] → ∀ external ∈ definition.interfaces,
      ∃ controller ∈ definition.controllers, controller.implementsExternal external.name = true
  first : ∀ external ∈ definition.interfaces, external.name = Membrane.componentInterface →
    definition.interfaces.head? = some external
  distinct : (definition.internalInterfaces.map (·.name)).Nodup
  twinned : definition.isComposite = true → ∀ external ∈ definition.interfaces,
    (external.isOptional = true ∨ definition.UsesOnThis external.name) →
    (∀ controller ∈ definition.controllers,
      controller.implementsExternal external.name = true → controller.isDelegator = true) →
    ∃ internal ∈ definition.internalInterfaces, internal.IsTwinOf external

/-- The delegators name on the inside what they name on the outside. -/
def PassesThrough (definition : Definition) : Prop :=
  ∀ controller ∈ definition.controllers, controller.PassesThrough

variable {original changed definition : Definition}

theorem PassesThrough.edit (edit : Edit original changed) (passes : original.PassesThrough) :
    changed.PassesThrough := by
  cases edit with
  | annotated path => cases path <;> exact passes
  | controlled added =>
      exact fun controller member => (List.mem_append.mp member).elim (passes controller)
        (added controller)
  | _ => exact passes

theorem PassesThrough.edits (edits : Edits original changed) (passes : original.PassesThrough) :
    changed.PassesThrough := by
  induction edits with
  | refl => exact passes
  | tail _ edit induction => exact induction.edit edit

/-- No edit makes use of an interface that was not used. -/
theorem Edit.usesOnThis {name : String} (edit : Edit original changed)
    (uses : changed.UsesOnThis name) : original.UsesOnThis name := by
  cases edit with
  | annotated path =>
      cases path with
      | binding index =>
          obtain ⟨binding, member, used⟩ := uses
          rcases exists_of_mem_modify member with among | ⟨other, found, rfl⟩
          · exact ⟨binding, among, used⟩
          · exact ⟨other, List.mem_of_getElem? found, used⟩
      | _ => exact uses
  | rebound rewrites _ =>
      obtain ⟨binding, member, used⟩ := uses
      obtain ⟨other, among, -, ⟨_, client⟩, ⟨_, server⟩⟩ := rewrites binding member
      rw [client, server] at used
      exact ⟨other, among, used⟩
  | _ => exact uses

theorem Edits.usesOnThis {name : String} (edits : Edits original changed)
    (uses : changed.UsesOnThis name) : original.UsesOnThis name := by
  induction edits with
  | refl => exact uses
  | tail _ edit induction => exact induction (edit.usesOnThis uses)

/-! ## What the check finds -/

theorem mem_names_of_isSome {interfaces : List Interface} {name : String}
    (found : (interfaces.find? (·.name == name)).isSome = true) :
    name ∈ interfaces.map (·.name) := by
  obtain ⟨interface, isFound⟩ := Option.isSome_iff_exists.mp found
  have named := List.find?_some isFound
  exact List.mem_map.mpr ⟨interface, List.mem_of_find?_eq_some isFound, beq_iff_eq.mp named⟩

theorem known_of_no_unknown (silent : definition.unknownInterface? = none) :
    ∀ controller ∈ definition.controllers, ∀ interface ∈ controller.interfaces,
      interface.name ∈ (if interface.isInternal then definition.internalInterfaces
        else definition.interfaces).map (·.name) := by
  intro controller member interface among
  have noReport := List.findSome?_eq_none_iff.mp silent controller member
  rw [Option.map_eq_none_iff, List.find?_eq_none] at noReport
  have named := noReport interface among
  rw [Bool.not_eq_true, Bool.not_eq_false', names] at named
  split at named
  · rename_i isInternal
    rw [if_pos isInternal]
    exact mem_names_of_isSome named
  · rename_i isExternal
    rw [if_neg isExternal]
    exact mem_names_of_isSome named

theorem used_of_no_unused (silent : definition.unusedInternal? = none) :
    ∀ internal ∈ definition.internalInterfaces,
      ∃ controller ∈ definition.controllers,
        controller.implementsInternal internal.name = true := by
  intro internal member
  unfold unusedInternal? at silent
  dsimp only at silent
  split at silent
  · rename_i none
    have implemented := List.filter_eq_nil_iff.mp none internal member
    rw [Bool.not_eq_true, Bool.not_eq_false', List.any_eq_true] at implemented
    exact implemented
  · exact nomatch silent

theorem implemented_of_no_unimplemented (silent : definition.unimplemented? = none)
    (concrete : definition.isAbstract = false) (component : definition.isType = false)
    (sourceless : definition.sources = []) :
    ∀ external ∈ definition.interfaces, ∃ controller ∈ definition.controllers,
      controller.implementsExternal external.name = true := by
  intro external member
  unfold unimplemented? at silent
  split at silent
  · rename_i none
    simp only [unimplemented, concrete, component, sourceless, List.isEmpty_nil, Bool.not_true,
      Bool.or_self, Bool.false_eq_true, if_false, List.map_eq_nil_iff] at none
    have implemented := List.filter_eq_nil_iff.mp none external member
    rw [Bool.not_eq_true, Bool.not_eq_false', List.any_eq_true] at implemented
    exact implemented
  · exact nomatch silent

/-- Where controllers, sources and interfaces fit together, the check finds nothing. -/
theorem membraneProblem?_eq_none
    (known : ∀ controller ∈ definition.controllers, ∀ interface ∈ controller.interfaces,
      interface.name ∈ (if interface.isInternal then definition.internalInterfaces
        else definition.interfaces).map (·.name))
    (used : ∀ internal ∈ definition.internalInterfaces,
      ∃ controller ∈ definition.controllers, controller.implementsInternal internal.name = true)
    (implemented : definition.isAbstract = false → definition.isType = false →
      definition.sources = [] → ∀ external ∈ definition.interfaces,
        ∃ controller ∈ definition.controllers, controller.implementsExternal external.name = true) :
    definition.membraneProblem? = none := by
  have found : ∀ {interfaces : List Interface} {name : String},
      name ∈ interfaces.map (·.name) → (interfaces.find? (·.name == name)).isSome = true := by
    intro interfaces name member
    obtain ⟨interface, among, named⟩ := List.mem_map.mp member
    exact List.find?_isSome.mpr ⟨interface, among, beq_iff_eq.mpr named⟩
  have noUnknown : definition.unknownInterface? = none := by
    refine List.findSome?_eq_none_iff.mpr fun controller member => ?_
    rw [Option.map_eq_none_iff, List.find?_eq_none]
    intro interface among
    have isKnown := known controller member interface among
    rw [Bool.not_eq_true, Bool.not_eq_false', names]
    split
    · rename_i isInternal
      rw [if_pos isInternal] at isKnown
      exact found isKnown
    · rename_i isExternal
      rw [if_neg isExternal] at isKnown
      exact found isKnown
  have noUnused : definition.unusedInternal? = none := by
    have none : definition.internalInterfaces.filter (fun interface =>
        !definition.controllers.any (·.implementsInternal interface.name)) = [] := by
      refine List.filter_eq_nil_iff.mpr fun internal member => ?_
      rw [Bool.not_eq_true, Bool.not_eq_false', List.any_eq_true]
      exact used internal member
    unfold unusedInternal?
    rw [none]
  have noUnimplemented : definition.unimplemented? = none := by
    have none : definition.unimplemented = [] := by
      unfold unimplemented
      split
      · rfl
      · rename_i concrete
        simp only [Bool.or_eq_true, Bool.not_eq_true', not_or, Bool.not_eq_true,
          Bool.not_eq_false, List.isEmpty_iff] at concrete
        rw [List.map_eq_nil_iff, List.filter_eq_nil_iff]
        intro external member
        rw [Bool.not_eq_true, Bool.not_eq_false', List.any_eq_true]
        exact implemented concrete.1.1 concrete.1.2 concrete.2 external member
    unfold unimplemented?
    rw [none]
  exact Option.or_eq_none_iff.mpr ⟨noUnknown, Option.or_eq_none_iff.mpr ⟨noUnused, noUnimplemented⟩⟩

/-! ## What is delegated -/

theorem mem_delegatedInterfaces {external : Interface} (member : external ∈ definition.interfaces)
    (free : ∀ controller ∈ definition.controllers,
      controller.implementsExternal external.name = false)
    (needed : external.isOptional = true ∨ definition.UsesOnThis external.name) :
    external.name ∈ definition.delegatedInterfaces := by
  refine List.mem_map.mpr ⟨external, List.mem_filter.mpr ⟨member, ?_⟩, rfl⟩
  rw [Bool.and_eq_true, Bool.not_eq_true', List.any_eq_false, Bool.or_eq_true]
  refine ⟨fun controller among => by simp [free controller among], needed.imp_right ?_⟩
  rintro ⟨binding, among, used⟩
  refine List.any_eq_true.mpr ⟨binding, among, ?_⟩
  change (_ && _ || _ && _) = true
  simpa only [Bool.or_eq_true, Bool.and_eq_true, beq_iff_eq] using used

theorem interfaces_delegator (names : List String) :
    (delegator names).interfaces = names.flatMap fun name => [⟨name, false⟩, ⟨name, true⟩] := by
  have added : ∀ (names : List String) (controller : Controller),
      (names.foldl (fun controller name => (controller.external name).internal name)
        controller).interfaces =
      controller.interfaces ++ names.flatMap fun name => [⟨name, false⟩, ⟨name, true⟩] := by
    intro names
    induction names with
    | nil => exact fun controller => (List.append_nil _).symm
    | cons first rest induction =>
        intro controller
        rw [List.foldl_cons, induction, List.flatMap_cons, ← List.append_assoc]
        simp [Controller.external, Controller.internal]
  exact added names _

/-- A delegator implements on either side what it was made for. -/
theorem implements_delegator {names : List String} {name : String} (member : name ∈ names) :
    (delegator names).implementsExternal name = true ∧
      (delegator names).implementsInternal name = true := by
  rw [Controller.implementsExternal, Controller.implementsInternal, interfaces_delegator]
  refine ⟨List.any_eq_true.mpr ⟨⟨name, false⟩, ?_, by simp⟩,
    List.any_eq_true.mpr ⟨⟨name, true⟩, ?_, by simp⟩⟩
  · exact List.mem_flatMap.mpr ⟨name, member, List.mem_cons_self⟩
  · exact List.mem_flatMap.mpr ⟨name, member, List.mem_cons_of_mem _ (List.mem_singleton_self _)⟩

/-- Nothing is delegated where all that is needed inside is implemented. -/
theorem delegatedInterfaces_eq_nil_iff : definition.delegatedInterfaces = [] ↔
    ∀ external ∈ definition.interfaces, (∀ controller ∈ definition.controllers,
        controller.implementsExternal external.name = false) →
      ¬(external.isOptional = true ∨ definition.UsesOnThis external.name) := by
  constructor
  · intro nothing external member free needed
    exact nomatch nothing ▸ mem_delegatedInterfaces member free needed
  · intro implemented
    refine List.map_eq_nil_iff.mpr (List.filter_eq_nil_iff.mpr fun external member due => ?_)
    rw [Bool.and_eq_true, Bool.not_eq_true', List.any_eq_false, Bool.or_eq_true] at due
    obtain ⟨free, needed⟩ := due
    refine implemented external member (fun controller among => by simpa using free controller among)
      (needed.imp_right fun used => ?_)
    obtain ⟨binding, among, uses⟩ := List.any_eq_true.mp used
    change (_ && _ || _ && _) = true at uses
    exact ⟨binding, among, by simpa only [Bool.or_eq_true, Bool.and_eq_true, beq_iff_eq] using uses⟩

/-- Once more nothing is delegated. -/
theorem delegatedInterfaces_withDelegator
    (succeeds : original.withDelegator original.delegatedInterfaces = .ok changed) :
    changed.delegatedInterfaces = [] := by
  obtain ⟨_, _, _, rfl⟩ := withDelegator_eq succeeds
  refine delegatedInterfaces_eq_nil_iff.mpr fun external member free needed => ?_
  have due : external.name ∈ original.delegatedInterfaces := mem_delegatedInterfaces member
    (fun controller among => free controller (List.mem_append_left _ among)) needed
  have implements := (implements_delegator due).1
  rw [free _ (List.mem_append_right _ (List.mem_singleton_self _))] at implements
  exact nomatch implements

/-- How a definition comes out of the delegation. -/
def Delegates (original changed : Definition) : Prop :=
  changed = original ∧ (original.isComposite = true → original.delegatedInterfaces = []) ∨
    original.withDelegator original.delegatedInterfaces = .ok changed

namespace Delegates

theorem edits (delegates : original.Delegates changed) : original.Edits changed := by
  rcases delegates with ⟨rfl, -⟩ | succeeds
  · exact .refl changed
  · exact withDelegator_edits succeeds

theorem interfaces (delegates : original.Delegates changed) :
    changed.interfaces = original.interfaces := by
  rcases delegates with ⟨rfl, -⟩ | succeeds
  · rfl
  · obtain ⟨_, _, _, rfl⟩ := withDelegator_eq succeeds
    rfl

theorem controllers (delegates : original.Delegates changed) :
    original.controllers ⊆ changed.controllers := by
  rcases delegates with ⟨rfl, -⟩ | succeeds
  · exact List.Subset.refl _
  · obtain ⟨_, _, _, rfl⟩ := withDelegator_eq succeeds
    exact List.subset_append_left _ _

/-- What is passed through is named on the inside: by the new delegator, or by the one that named
it on the outside before. -/
theorem implementsInternal (delegates : original.Delegates changed) (passes : original.PassesThrough)
    (composite : original.isComposite = true) {external : Interface}
    (member : external ∈ original.interfaces)
    (needed : external.isOptional = true ∨ original.UsesOnThis external.name)
    (delegated : ∀ controller ∈ changed.controllers,
      controller.implementsExternal external.name = true → controller.isDelegator = true) :
    ∃ controller ∈ changed.controllers, controller.implementsInternal external.name = true := by
  by_cases free : ∀ controller ∈ original.controllers,
      controller.implementsExternal external.name = false
  · have due := mem_delegatedInterfaces member free needed
    rcases delegates with ⟨-, nothing⟩ | succeeds
    · rw [nothing composite] at due
      exact nomatch due
    · obtain ⟨_, _, _, rfl⟩ := withDelegator_eq succeeds
      exact ⟨delegator original.delegatedInterfaces,
        List.mem_append_right _ (List.mem_singleton_self _), (implements_delegator due).2⟩
  · simp only [not_forall, Bool.not_eq_false] at free
    obtain ⟨controller, among, implements⟩ := free
    have stays := delegates.controllers among
    exact ⟨controller, stays, passes controller among (delegated controller stays implements) _
      implements⟩

end Delegates

/-- The interface of the component itself comes first. -/
theorem head?_componentInterfaceFirst (distinct : (definition.interfaces.map (·.name)).Nodup)
    {external : Interface} (member : external ∈ definition.interfaces)
    (named : external.name = Membrane.componentInterface) :
    definition.componentInterfaceFirst.interfaces.head? = some external := by
  unfold componentInterfaceFirst
  dsimp only
  split
  · rename_i interface found
    have isComponent : interface.name = Membrane.componentInterface := by
      simpa using List.find?_some found
    exact congrArg some (List.inj_on_of_nodup_map distinct (List.mem_of_find?_eq_some found) member
      (isComponent.trans named.symm))
  · rename_i absent
    exact absurd (beq_iff_eq.mpr named) (List.find?_eq_none.mp absent external member)

/-- Where it is first already, nothing changes. -/
theorem componentInterfaceFirst_of_first
    (first : ∀ external ∈ definition.interfaces, external.name = Membrane.componentInterface →
      definition.interfaces.head? = some external) :
    definition.componentInterfaceFirst = definition := by
  unfold componentInterfaceFirst
  dsimp only
  split
  · rename_i interface found
    have isComponent := List.find?_some found
    obtain ⟨rest, begins⟩ := List.head?_eq_some_iff.mp
      (first interface (List.mem_of_find?_eq_some found) (beq_iff_eq.mp isComponent))
    have same : interface :: definition.interfaces.eraseP
        (fun interface => interface.name == Membrane.componentInterface) = definition.interfaces := by
      rw [begins, List.eraseP_cons, isComponent, cond_true]
    rw [same]
  · rfl

/-- Where nothing is wrong with a membrane, nothing is once its interfaces are ordered. -/
theorem membraneProblem?_componentInterfaceFirst (silent : definition.membraneProblem? = none) :
    definition.componentInterfaceFirst.membraneProblem? = none := by
  obtain ⟨noUnknown, others⟩ := Option.or_eq_none_iff.mp silent
  obtain ⟨noUnused, noUnimplemented⟩ := Option.or_eq_none_iff.mp others
  have known := known_of_no_unknown noUnknown
  have implemented := implemented_of_no_unimplemented noUnimplemented
  obtain ⟨interfaces, perm, -, same⟩ := definition.componentInterfaceFirst_eq
  rw [same]
  refine membraneProblem?_eq_none ?_ (used_of_no_unused noUnused) fun concrete component sourceless
    external member => implemented concrete component sourceless external (perm.subset member)
  intro controller member interface among
  have isKnown := known controller member interface among
  split at isKnown
  · rename_i isInternal
    rwa [if_pos isInternal]
  · rename_i isExternal
    rw [if_neg isExternal]
    exact (perm.map _).mem_iff.mpr isKnown

/-- A membrane that comes out of the delegation and in which the check finds nothing wrong is
complete. -/
theorem hasMembrane_of_delegates (delegates : original.Delegates changed)
    (silent : changed.membraneProblem? = none) (passes : original.PassesThrough)
    (twinned : changed.IsTwinned) (distinct : (changed.interfaces.map (·.name)).Nodup) :
    changed.componentInterfaceFirst.HasMembrane := by
  have first := @head?_componentInterfaceFirst changed distinct
  have ordered := membraneProblem?_componentInterfaceFirst silent
  obtain ⟨interfaces, perm, -, same⟩ := changed.componentInterfaceFirst_eq
  rw [same] at first ordered ⊢
  obtain ⟨noUnknown, others⟩ := Option.or_eq_none_iff.mp ordered
  obtain ⟨noUnused, noUnimplemented⟩ := Option.or_eq_none_iff.mp others
  have known := known_of_no_unknown noUnknown
  refine ⟨known, used_of_no_unused noUnused, implemented_of_no_unimplemented noUnimplemented,
    fun external member => first (perm.subset member), twinned.distinct, ?_⟩
  · intro composite external member needed delegated
    have declared : external ∈ changed.interfaces := perm.subset member
    have uses : changed.UsesOnThis external.name → original.UsesOnThis external.name :=
      delegates.edits.usesOnThis
    have compositeOriginal : original.isComposite = true := by
      rw [isComposite, ← delegates.edits.kind]
      exact composite
    obtain ⟨controller, among, implements⟩ := delegates.implementsInternal passes compositeOriginal
      (delegates.interfaces ▸ declared) (needed.imp_right uses) delegated
    obtain ⟨interface, listed, isInternal⟩ := List.any_eq_true.mp implements
    rw [Bool.and_eq_true, beq_iff_eq] at isInternal
    have isKnown := known controller among interface listed
    rw [if_pos isInternal.1, isInternal.2] at isKnown
    obtain ⟨internal, memberInternal, named⟩ := List.mem_map.mp isKnown
    obtain ⟨other, memberOther, isSide⟩ :=
      List.mem_map.mp (twinned.twins (List.mem_map_of_mem memberInternal))
    have twin := Interface.isTwinOf_of_dual isSide
    have equal := List.inj_on_of_nodup_map distinct memberOther declared (twin.name.symm.trans named)
    exact ⟨internal, memberInternal, equal ▸ twin⟩

/-- What stages do after the membrane is complete leaves it so. -/
theorem HasMembrane.later {bindings : List Binding} {attributes : List Attribute}
    {decorations : Decorations} (membrane : original.HasMembrane)
    (same : changed = { original with bindings, attributes, decorations })
    (uses : ∀ name, changed.UsesOnThis name → original.UsesOnThis name) : changed.HasMembrane := by
  subst same
  exact { membrane with
    twinned := fun composite external member needed =>
      membrane.twinned composite external member (needed.imp_right (uses _)) }

end Definition

theorem FrontEnd.preserves_passesThrough {frontEnd : FrontEnd}
    (parses : ∀ definition, frontEnd.Parses definition → definition.controllers = []) :
    frontEnd.Preserves Definition.PassesThrough where
  default _ member := nomatch member
  parses definition parsed _ member := nomatch parses definition parsed ▸ member
  edit _ _ edit passes := passes.edit edit
  typeParameters _ _ passes := passes
  components _ _ _ passes := passes
  parents _ _ passes := passes
  marked _ passes := passes
  inheritable _ passes := passes
  merged _ _ _ _ own handed := fun controller member =>
    (List.mem_append.mp member).elim (fun inherited => handed controller (List.mem_filter.mp inherited).1)
      (own controller)
  copy _ _ _ passes := passes
  bare _ _ _ passes := passes

namespace Stage

variable {frontEnd : FrontEnd} {load : String → Loading DefinitionId} {name : String}
  {id : DefinitionId} {before after : Context}

/-- The membrane is complete after its stages. -/
theorem hasMembrane_of_ran (making : Making name id before)
    (passes : (before.definition id).PassesThrough) (twinned : (before.definition id).IsTwinned)
    (ran : [.interfaces, .delegation, .membrane].forM (run frontEnd load name id) before =
      (.ok (), after)) (silent : after.log.errors = []) :
    (after.definition id).HasMembrane := by
  obtain ⟨-, -, distinct⟩ := interfaces_of_ran making ran
  obtain ⟨checked, ranInterfaces, ran⟩ := ran_cons ran
  obtain ⟨delegated, ranDelegation, ran⟩ := ran_cons ran
  have ranMembrane := ran_singleton ran
  obtain ⟨makingChecked, -, reports, -⟩ := (agree_checkInterfaces making).of_ok ranInterfaces
  obtain ⟨makingDelegated, -, delegates⟩ :=
    (agree_delegateInterfaces makingChecked).of_ok ranDelegation
  obtain ⟨-, -, complete, ordered⟩ := (agree_completeMembrane makingDelegated).of_ok ranMembrane
  have delegates : (checked.definition id).Delegates (delegated.definition id) := delegates
  rw [reports.definition] at delegates
  obtain ⟨interfaces, perm, -, same⟩ := (delegated.definition id).componentInterfaceFirst_eq
  have distinct := (distinct silent).2
  rw [ordered] at distinct ⊢
  rw [same] at distinct
  exact Definition.hasMembrane_of_delegates delegates complete passes
    (twinned.edits delegates.edits) ((perm.map _).nodup_iff.mp distinct)

end Stage

namespace Context

variable {frontEnd : FrontEnd} {strict : Prop} {origin middle before after : Context}
  {name : String} {id : DefinitionId}

/-- The last stages leave a complete membrane. -/
theorem ClosedOn.hasMembrane (predefined : frontEnd.registry = .predefined)
    (closed : ClosedOn frontEnd strict origin name id middle before after)
    (ordinary : (middle.definition id).IsOrdinary) (passes : (middle.definition id).PassesThrough)
    (twinned : (middle.definition id).IsTwinned) (silent : before.log.errors = []) :
    (before.definition id).HasMembrane := by
  obtain ⟨load, extended, complete, bound, making, edited, ranInterfaces, ranBindings, editedBefore,
    attributes, decorations, isBefore⟩ := closed.stages predefined ordinary
  obtain ⟨makingComplete, -, -⟩ := Stage.interfaces_of_ran making ranInterfaces
  obtain ⟨-, editedBound, bindings⟩ := Stage.bindings_of_ran makingComplete ranBindings
  have silentBound := editedBefore.silent silent
  obtain ⟨⟨rebound, isBound⟩, -⟩ := bindings silentBound
  have membrane := Stage.hasMembrane_of_ran making (passes.edits edited.edits)
    (twinned.edits edited.edits) ranInterfaces (editedBound.silent silentBound)
  refine membrane.later (isBefore.trans (by rw [isBound])) fun other uses => ?_
  exact (editedBound.edits.trans editedBefore.edits).usesOnThis uses

end Context

namespace FrontEnd

/-- Where a compilation succeeds, all that it loads has a complete membrane. -/
theorem membranes_complete (frontEnd : FrontEnd) (options : Options) (definitions : List Definition)
    (roots : List String) (predefined : frontEnd.registry = .predefined)
    (plain : ∀ definition, definition ∈ definitions ∨ frontEnd.Parses definition →
      definition.internalInterfaces = [] ∧ definition.controllers = [] ∧ definition.IsOrdinary)
    {compiled : Compiled}
    (succeeds : (frontEnd.compile (.ofDefinitions options definitions) roots).outcome =
      .ok compiled) (id : DefinitionId) (loaded : compiled.context.Loaded id) :
    (compiled.context.definition id).HasMembrane := by
  have harmless : frontEnd.registry.IsHarmless :=
    predefined ▸ AnnotationRegistry.isHarmless_predefined
  obtain ⟨silent, -, closedOn⟩ := closedOn_of_compile harmless
    (fun never : False => never.elim) False.elim succeeds
  obtain ⟨name, middle, before, closed⟩ := closedOn id loaded
  have silentBefore := closed.silent silent
  have silentMiddle := (closed.edited harmless).silent silentBefore
  have everywhere : ∀ {Holds : Definition → Prop}, frontEnd.Preserves Holds →
      (∀ definition ∈ definitions, Holds definition) → Holds (middle.definition id) :=
    fun preserves registered =>
      preserves.maintains.ofDefinitions registered closed.path silentMiddle id
  rw [closed.definition]
  refine closed.hasMembrane predefined ?_ ?_ ?_ silentBefore
  · exact everywhere (preserves_isOrdinary fun _ parsed => (plain _ (.inr parsed)).2.2)
      fun _ member => (plain _ (.inl member)).2.2
  · exact everywhere (preserves_passesThrough fun _ parsed => (plain _ (.inr parsed)).2.1)
      fun _ member _ among => nomatch (plain _ (.inl member)).2.1 ▸ among
  · exact everywhere (preserves_isTwinned fun _ parsed => (plain _ (.inr parsed)).1)
      fun _ member => .of_none (plain _ (.inl member)).1

/-- A composite that passes its interfaces on to parts. -/
def enclosing : List Definition :=
  [ offering "a.S" (.ofRole .server "y" "s"),
    { Definition.ofKind "a.Top" .composite with
      interfaces := [.ofRole .server "run" "s", .ofRole .server "component" "s"]
      components :=
        [⟨"c", some (.ofName "a.S"), none, .generated, .none, none, false⟩,
          ⟨"d", some (.ofName "a.S"), none, .generated, .none, none, false⟩]
      bindings :=
        [⟨⟨"this", "run", none⟩, ⟨"c", "y", none⟩, .generated, .none, false⟩,
          ⟨⟨"this", "component", none⟩, ⟨"d", "y", none⟩, .generated, .none, false⟩] } ]

/-- The composite comes to have the other side of what it passes on, and its own interface is
first. -/
theorem enclosed_completely :
    ∃ compiled, (registeredOnly.compile (.ofDefinitions .default enclosing) ["a.Top"]).outcome =
        .ok compiled ∧
      compiled.context.Loaded 1 ∧
      ((compiled.context.definition 1).interfaces.map (·.name)) =
        ["component", "run"] ∧
      ((compiled.context.definition 1).internalInterfaces.map (·.role)) = [.client, .client] ∧
      (compiled.context.definition 1).HasMembrane := by
  have succeeds : (registeredOnly.compile (.ofDefinitions .default enclosing)
      ["a.Top"]).outcome.toOption.any (fun compiled => compiled.context.cache.find? "a.Top" = some 1 ∧
        (compiled.context.definition 1).interfaces.map (·.name) =
          ["component", "run"] ∧
        (compiled.context.definition 1).internalInterfaces.map (·.role) = [.client, .client]) = true := by
    decide +kernel
  obtain ⟨compiled, outcome, found, interfaces, roles⟩ := exists_ok_of_any succeeds
  refine ⟨compiled, outcome, ⟨"a.Top", found⟩, interfaces, roles, ?_⟩
  refine membranes_complete registeredOnly .default enclosing ["a.Top"] rfl ?_ outcome 1 ⟨"a.Top", found⟩
  rintro definition (member | ⟨_, _, _, _, isParser, -⟩)
  · have plain : ∀ definition ∈ enclosing, definition.internalInterfaces = [] ∧
        definition.controllers.length = 0 ∧ definition.IsUntyped := by
      decide
    obtain ⟨internals, controllers, untyped⟩ := plain definition member
    exact ⟨internals, List.eq_nil_of_length_eq_zero controllers, untyped.isOrdinary⟩
  · exact nomatch isParser

end FrontEnd

end Adl
