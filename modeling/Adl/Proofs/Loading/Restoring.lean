import Adl.Proofs.Loading.Resting
import Adl.Proofs.Membrane.Completion

namespace Adl

open Context

/-! Definitions that are restored in another context. What their sub-components designate there
looks the same to them, so that they are settled there as well. -/

/-! ## Restored definitions -/

/-- Two definitions look the same to those that instantiate them. -/
structure Definition.Presents (restored original : Definition) : Prop where
  name : restored.name = original.name
  interfaces : restored.interfaces = original.interfaces
  annotations : restored.annotations = original.annotations
  singleton : restored.decorations.singleton = original.decorations.singleton

/-- A sub-component designates in one context what looks the same as what it designates in the
other. -/
structure Component.Restores (after before : Context) (restored original : Component) : Prop where
  name : restored.name = original.name
  span : restored.span = original.span
  annotations : restored.annotations = original.annotations
  flag : restored.hasLifeCycleController = original.hasLifeCycleController
  designates : Option.Rel (fun restored original =>
    (after.definition restored).Presents (before.definition original))
    restored.resolvedId? original.resolvedId?

/-- A definition is the same but for references and for the typed annotations of controllers. -/
structure Definition.Restores (after before : Context) (restored original : Definition) : Prop where
  same : restored = { original with
    parents := restored.parents
    typeParameters := restored.typeParameters
    components := restored.components
    controllers := restored.controllers }
  controllers : restored.controllers.map Controller.withoutTyped =
    original.controllers.map Controller.withoutTyped
  components : List.Forall₂ (Component.Restores after before) restored.components original.components
  free : ∀ parameter ∈ original.typeParameters, parameter.conformsTo = none
  restoredFree : ∀ parameter ∈ restored.typeParameters, parameter.conformsTo = none

theorem rel_find?_of_forall₂ {α β : Type} {Related : α → β → Prop} {lefts : List α} {rights : List β}
    {left : α → Bool} {right : β → Bool} (related : List.Forall₂ Related lefts rights)
    (same : ∀ item other, Related item other → left item = right other) :
    Option.Rel Related (lefts.find? left) (rights.find? right) := by
  induction related with
  | nil => exact .none
  | @cons item other _ _ first _ induction =>
      rw [List.find?_cons, List.find?_cons, same item other first]
      cases right other with
      | true => exact .some first
      | false => exact induction

namespace Definition

/-- A sub-component stands for what it designates, where type parameters conform to nothing. -/
theorem componentDefinition?_of_free {definition : Definition}
    (free : ∀ parameter ∈ definition.typeParameters, parameter.conformsTo = none) (name : String) :
    definition.componentDefinition? name =
      (definition.component? name).bind (·.resolvedId?) := by
  have unbound : ∀ component : Component, (do
      let parameter ← definition.typeParameter? (← component.typeParameter)
      (← parameter.conformsTo).resolvedId? : Option DefinitionId) = none := by
    intro component
    cases component.typeParameter with
    | none => rfl
    | some parameter =>
        cases found : definition.typeParameter? parameter with
        | none => simp [found]
        | some declared => simp [found, free declared (List.mem_of_find?_eq_some found)]
  unfold componentDefinition?
  cases definition.component? name with
  | none => rfl
  | some component =>
      change component.resolvedId?.or _ = component.resolvedId?
      rw [unbound component, Option.or_none]

namespace Restores

variable {after before : Context} {restored original : Definition}

theorem mirrors (restores : Restores after before restored original) :
    restored.Mirrors after original before where
  interfaces := by rw [restores.same]
  internalInterfaces := by rw [restores.same]
  components := by
    have components := restores.components
    generalize restored.components = lefts at components
    generalize original.components = rights at components
    induction components with
    | nil => rfl
    | cons first _ induction => rw [List.map_cons, List.map_cons, induction, first.name, first.span]
  designated name := by
    rw [componentDefinition?_of_free restores.restoredFree, componentDefinition?_of_free restores.free]
    have found : Option.Rel (Component.Restores after before) (restored.component? name)
        (original.component? name) :=
      rel_find?_of_forall₂ restores.components fun _ _ same => by rw [same.name]
    generalize restored.component? name = left at found ⊢
    generalize original.component? name = right at found ⊢
    cases found with
    | none => rfl
    | @some component other same =>
        have designates := same.designates
        rw [Option.bind_some, Option.bind_some]
        generalize component.resolvedId? = left at designates ⊢
        generalize other.resolvedId? = right at designates ⊢
        cases designates with
        | none => rfl
        | some presents => rw [Option.map_some, Option.map_some, presents.interfaces]

/-- Of controllers, only the interfaces matter. -/
theorem any_controllers (restores : Restores after before restored original)
    (holds : List ControllerInterface → Bool) :
    restored.controllers.any (fun controller => holds controller.interfaces) =
      original.controllers.any fun controller => holds controller.interfaces := by
  have same := congrArg (List.any · fun controller => holds controller.interfaces)
    restores.controllers
  rwa [List.any_map, List.any_map] at same

theorem everywhere {Holds : Target → Annotations → Prop}
    (restores : Restores after before restored original) (everywhere : original.Everywhere Holds) :
    restored.Everywhere Holds := by
  have components : ∀ component ∈ restored.components, Holds .component component.annotations := by
    intro component member
    obtain ⟨other, among, same⟩ := exists_right_of_forall₂ restores.components component member
    exact same.annotations ▸ everywhere.components other among
  rw [restores.same]
  exact ⟨everywhere.own, everywhere.interfaces, everywhere.internalInterfaces, everywhere.attributes,
    components, everywhere.bindings, everywhere.sources⟩

theorem hasControl {names : List String} {covered : String} {shared : Option String}
    (restores : Restores after before restored original)
    (has : original.HasControl names covered shared) : restored.HasControl names covered shared where
  interfaces := by
    rw [restores.same]
    exact has.interfaces
  controllers := by
    rw [restores.same]
    exact has.controllers
  exposed name member := by
    rw [restores.same]
    exact has.exposed name member
  covered := (restores.any_controllers fun interfaces => interfaces.any (·.name == covered)).trans
    has.covered
  shared path isShared := by
    rw [restores.same]
    exact has.shared path isShared

theorem grants {directive : Directive} (restores : Restores after before restored original)
    (grants : original.Grants directive) : restored.Grants directive := by
  have attributes : restored.attributes = original.attributes := by rw [restores.same]
  have interfaces : restored.interfaces = original.interfaces := restores.mirrors.interfaces
  have isComposite : restored.isComposite = original.isComposite := by
    rw [restores.same]
    rfl
  cases directive with
  | lifeCycle => exact restores.hasControl grants
  | attributeControl allowNone =>
      exact ⟨fun needed => attributes ▸ grants.1 needed, restores.hasControl grants.2⟩
  | bindingControl allowNone =>
      exact ⟨fun needed => interfaces ▸ grants.1 needed, restores.hasControl grants.2⟩
  | contentControl => exact ⟨isComposite.trans grants.1, restores.hasControl grants.2⟩
  | cloneable => exact restores.hasControl grants
  | mark | singleton | probe => trivial

theorem rel_component (restores : Restores after before restored original) (index : Nat) :
    Option.Rel (Component.Restores after before) restored.components[index]?
      original.components[index]? := by
  have components := restores.components
  generalize restored.components = lefts at components
  generalize original.components = rights at components
  induction components generalizing index with
  | nil => exact .none
  | cons first _ induction =>
      cases index with
      | zero => exact .some first
      | succ index => exact induction index

/-- What a part designates is a part of the original that looks the same. -/
theorem exists_part (restores : Restores after before restored original) {index : Nat}
    {part : DefinitionId} (isPart : restored.part? index = some part) :
    ∃ other, original.part? index = some other ∧
      (after.definition part).Presents (before.definition other) := by
  have related := restores.rel_component index
  obtain ⟨component, found, designates⟩ := Option.bind_eq_some_iff.mp isPart
  rw [found] at related
  cases isOther : original.components[index]? with
  | none =>
      rw [isOther] at related
      exact nomatch related
  | some other =>
      rw [isOther] at related
      cases related with
      | some same =>
          have designated := same.designates
          rw [designates] at designated
          cases isTarget : other.resolvedId? with
          | none =>
              rw [isTarget] at designated
              exact nomatch designated
          | some target =>
              rw [isTarget] at designated
              cases designated with
              | some presents =>
                  refine ⟨target, ?_, presents⟩
                  rw [Definition.part?, isOther]
                  exact isTarget

theorem isFlagged {index : Nat} (restores : Restores after before restored original)
    (flagged : original.IsFlagged index) : restored.IsFlagged index := by
  obtain ⟨other, isOther, flag⟩ := flagged
  have related := restores.rel_component index
  rw [isOther] at related
  cases found : restored.components[index]? with
  | none =>
      rw [found] at related
      exact nomatch related
  | some component =>
      rw [found] at related
      cases related with
      | some same => exact ⟨component, found, same.flag.trans flag⟩

theorem mindsParts (restores : Restores after before restored original)
    (minds : AnnotationRegistry.MindsParts before original) :
    AnnotationRegistry.MindsParts after restored where
  predefined index part isPart := by
    obtain ⟨other, isOther, presents⟩ := restores.exists_part isPart
    exact presents.annotations ▸ minds.predefined index other isOther
  spread index part isPart member := by
    obtain ⟨other, isOther, presents⟩ := restores.exists_part isPart
    have annotations : restored.annotations = original.annotations := by rw [restores.same]
    exact annotations ▸ minds.spread index other isOther (presents.annotations ▸ member)
  lifeCycle index part isPart member := by
    obtain ⟨other, isOther, presents⟩ := restores.exists_part isPart
    obtain ⟨flagged, provides⟩ := minds.lifeCycle index other isOther (presents.annotations ▸ member)
    exact ⟨restores.isFlagged flagged, restores.hasControl provides⟩

theorem delegatedInterfaces (restores : Restores after before restored original) :
    restored.delegatedInterfaces = original.delegatedInterfaces := by
  have implemented : ∀ name : String,
      restored.controllers.any (·.implementsExternal name) =
        original.controllers.any (·.implementsExternal name) := fun name =>
    restores.any_controllers fun interfaces =>
      interfaces.any fun interface => !interface.isInternal && interface.name == name
  have bindings : restored.bindings = original.bindings := by rw [restores.same]
  unfold Definition.delegatedInterfaces
  simp only [implemented, bindings, restores.mirrors.interfaces]

theorem exists_controller (restores : Restores after before restored original) :
    (∀ controller ∈ restored.controllers, ∃ other ∈ original.controllers,
      other.interfaces = controller.interfaces) ∧
    ∀ controller ∈ original.controllers, ∃ other ∈ restored.controllers,
      other.interfaces = controller.interfaces := by
  have found : ∀ {lefts rights : List Controller},
      lefts.map Controller.withoutTyped = rights.map Controller.withoutTyped →
      ∀ controller ∈ lefts, ∃ other ∈ rights, other.interfaces = controller.interfaces := by
    intro lefts rights same controller member
    have among : controller.withoutTyped ∈ rights.map Controller.withoutTyped :=
      same ▸ List.mem_map_of_mem member
    obtain ⟨other, otherMember, equal⟩ := List.mem_map.mp among
    have interfaces : other.withoutTyped.interfaces = controller.withoutTyped.interfaces :=
      congrArg Controller.interfaces equal
    exact ⟨other, otherMember, interfaces⟩
  exact ⟨found restores.controllers, found restores.controllers.symm⟩

theorem membraneProblem? (restores : Restores after before restored original)
    (complete : original.membraneProblem? = none) : restored.membraneProblem? = none := by
  obtain ⟨noUnknown, others⟩ := Option.or_eq_none_iff.mp complete
  obtain ⟨noUnused, noUnimplemented⟩ := Option.or_eq_none_iff.mp others
  have known := known_of_no_unknown noUnknown
  have used := used_of_no_unused noUnused
  have implemented := implemented_of_no_unimplemented noUnimplemented
  obtain ⟨back, forth⟩ := restores.exists_controller
  have interfaces := restores.mirrors.interfaces
  have internalInterfaces := restores.mirrors.internalInterfaces
  refine membraneProblem?_eq_none ?_ ?_ ?_
  · intro controller member interface among
    obtain ⟨other, otherMember, same⟩ := back controller member
    rw [interfaces, internalInterfaces]
    exact known other otherMember interface (same ▸ among)
  · rw [internalInterfaces]
    intro internal member
    obtain ⟨controller, among, implements⟩ := used internal member
    obtain ⟨other, otherMember, same⟩ := forth controller among
    refine ⟨other, otherMember, ?_⟩
    rw [Controller.implementsInternal, same]
    exact implements
  · rw [interfaces]
    intro concrete component sourceless external member
    rw [restores.same] at concrete component sourceless
    obtain ⟨controller, among, implements⟩ := implemented concrete component sourceless external member
    obtain ⟨other, otherMember, same⟩ := forth controller among
    refine ⟨other, otherMember, ?_⟩
    rw [Controller.implementsExternal, same]
    exact implements

theorem componentInterfaceFirst (restores : Restores after before restored original)
    (first : original.componentInterfaceFirst = original) :
    restored.componentInterfaceFirst = restored := by
  have interfaces := restores.mirrors.interfaces
  unfold Definition.componentInterfaceFirst at first ⊢
  dsimp only at first ⊢
  rw [interfaces]
  split
  · rename_i interface found
    rw [found] at first
    have ordered : interface :: original.interfaces.eraseP
        (fun interface => interface.name == Membrane.componentInterface) = original.interfaces :=
      congrArg Definition.interfaces first
    rw [ordered, ← interfaces]
  · rfl

/-- No part is a singleton twice. -/
theorem duplicates (restores : Restores after before restored original)
    (firstUses : Table String) :
    Singleton.duplicates after firstUses restored.resolvedComponents =
      Singleton.duplicates before firstUses original.resolvedComponents := by
  have components := restores.components
  unfold Definition.resolvedComponents
  generalize restored.components = lefts at components
  generalize original.components = rights at components
  induction components generalizing firstUses with
  | nil => rfl
  | @cons component other _ _ same _ induction =>
      have designates := same.designates
      rw [List.filterMap_cons, List.filterMap_cons]
      generalize component.resolvedId? = left at designates ⊢
      generalize other.resolvedId? = right at designates ⊢
      cases designates with
      | none => exact induction firstUses
      | @some part target presents =>
          have single : Singleton.isSingleton (after.definition part) =
              Singleton.isSingleton (before.definition target) := by
            rw [Singleton.isSingleton, presents.singleton, presents.annotations]
            rfl
          simp only [Option.map_some, Singleton.duplicates, single, presents.name, same.name,
            same.span, induction]

end Restores

/-- What is settled is settled wherever it is restored. -/
theorem IsSettled.restored {extends? : String → String → Bool} {after before : Context}
    {restored original : Definition} (settled : original.IsSettled extends? before)
    (restores : Restores after before restored original) : restored.IsSettled extends? after := by
  have mirrors := restores.mirrors
  have bindings : restored.bindings = original.bindings := by rw [restores.same]
  have annotations : restored.annotations = original.annotations := by rw [restores.same]
  have isComposite : restored.isComposite = original.isComposite := by
    rw [restores.same]
    rfl
  exact {
    built := restores.everywhere settled.built
    merged := by
      rw [restores.same]
      exact settled.merged
    granted := fun item member isDue =>
      restores.grants (settled.granted item (annotations ▸ member) isDue)
    minds := restores.mindsParts settled.minds
    interfaces := mirrors.interfaces ▸ settled.interfaces
    passed := fun composite => restores.delegatedInterfaces.trans
      (settled.passed (isComposite ▸ composite))
    complete := restores.membraneProblem? settled.complete
    first := restores.componentInterfaceFirst settled.first
    expanded := fun binding member =>
      (mirrors.expansion? rfl rfl).trans (settled.expanded binding (bindings ▸ member))
    single := bindings ▸ settled.single
    checked := fun binding member =>
      (Binding.check_congr mirrors (by rw [restores.same]) rfl rfl rfl).trans
        (settled.checked binding (bindings ▸ member))
    covered := by
      intro composite concrete
      rw [restores.same] at concrete
      exact (mirrors.unbound (congrArg (List.map (·.client)) bindings)).trans
        (settled.covered (isComposite ▸ composite) concrete)
    parameters := by
      rw [restores.same]
      exact settled.parameters
    singles := by
      intro member
      obtain ⟨decorated, none⟩ := settled.singles (annotations ▸ member)
      refine ⟨?_, (restores.duplicates _).trans none⟩
      rw [restores.same]
      exact decorated }

end Definition

end Adl
