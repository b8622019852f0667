import Adl.Proofs.Annotation.Granting

namespace Adl

open Step

/-! What an annotation for control does to a definition. All that it requests is there in the end.
What is there is implemented, unless another controller was there that covers part of it. -/

namespace Definition

variable {definition : Definition} {request : Membrane.Request}

/-- A controller of the definition implements the external interface. -/
def Implements (definition : Definition) (name : String) : Prop :=
  ∃ controller ∈ definition.controllers, controller.implementsExternal name = true

instance (definition : Definition) (name : String) : Decidable (definition.Implements name) := by
  unfold Implements
  infer_instance

/-- All is implemented that was requested where it had been implemented, or where the controller
that is requested is new. -/
theorem implements_granted_iff :
    (∀ interface ∈ request.interfaces, (definition.granted request).Implements interface.name) ↔
      (∀ controller ∈ definition.controllers, controller.covers request.lead = false) ∨
        ∀ interface ∈ request.interfaces, definition.Implements interface.name := by
  have kept : ∀ name, definition.Implements name → (definition.granted request).Implements name :=
    fun _ ⟨controller, member, implements⟩ =>
      ⟨controller, controllers_granted.subset member, implements⟩
  by_cases covered : definition.controllers.any (·.covers request.lead) = true
  · have same : (definition.granted request).controllers = definition.controllers := if_pos covered
    simp only [Implements, same]
    refine ⟨.inr, fun either => either.resolve_left fun uncovered => ?_⟩
    obtain ⟨controller, member, covers⟩ := List.any_eq_true.mp covered
    exact nomatch (uncovered controller member).symm.trans covers
  · have added : (definition.granted request).controllers =
        definition.controllers ++ [request.controller] := if_neg covered
    refine ⟨fun _ => .inl (by simpa using covered), fun _ interface member => ?_⟩
    exact ⟨request.controller, by rw [added]; simp, request.implements interface member⟩

end Definition

/-! ## Annotations -/

namespace Control

/-- What an annotation notes on a sub-component before it makes its request. -/
def noted (directive : Directive) (definition : Definition) (node : NodePath) (phase : Phase) :
    Definition :=
  match directive with
  | .lifeCycle => flagLifeCycle definition node phase
  | _ => definition

/-- The definition is one to which the annotation can be given. -/
def Admits (directive : Directive) (definition : Definition) : Prop :=
  match directive with
  | .attributeControl allowNone => allowNone = true ∨ definition.attributes ≠ []
  | .bindingControl allowNone => allowNone = true ∨ definition.interfaces.any (·.isClient) = true
  | .contentControl => definition.isComposite = true
  | _ => True

variable {built : Annotation} {node : NodePath} {definition changed : Definition} {phase : Phase}
  {context reached : Context} {request : Membrane.Request}

theorem admits_attributeControl_iff {allowNone : Bool} :
    Admits (.attributeControl allowNone) definition ↔
      ¬(!allowNone && definition.attributes.isEmpty) = true := by
  simp [Admits, or_iff_not_imp_left]

theorem admits_bindingControl_iff {allowNone : Bool} :
    Admits (.bindingControl allowNone) definition ↔
      ¬(!allowNone && !definition.interfaces.any (·.isClient)) = true := by
  simp [Admits, or_iff_not_imp_left]

/-- Where the annotation is admitted, its request is granted without a report. -/
theorem process_of_admits (asks : built.directive.request? = some request)
    (admits : Admits built.directive definition) (node : NodePath) (phase : Phase)
    (context : Context) :
    process built node definition phase context =
      (.ok (some ((noted built.directive definition node phase).granted request)), context) := by
  unfold process
  cases isDirective : built.directive with
  | lifeCycle =>
      rw [isDirective] at asks
      cases asks
      dsimp only [noted]
      rw [Definition.addControl_eq_ok]
      rfl
  | attributeControl allowNone =>
      rw [isDirective] at asks admits
      cases asks
      dsimp only [noted]
      rw [if_neg (admits_attributeControl_iff.mp admits), Definition.addControl_eq_ok]
      rfl
  | bindingControl allowNone =>
      rw [isDirective] at asks admits
      cases asks
      dsimp only [noted]
      rw [if_neg (admits_bindingControl_iff.mp admits), Definition.addControl_eq_ok]
      rfl
  | contentControl =>
      rw [isDirective] at asks admits
      cases asks
      have composite : definition.isComposite = true := admits
      dsimp only [noted]
      rw [if_pos composite, Definition.addControl_eq_ok]
      rfl
  | cloneable =>
      rw [isDirective] at asks
      cases asks
      dsimp only [noted]
      rw [Definition.addCloning_eq_ok]
      rfl
  | mark | singleton | probe =>
      rw [isDirective] at asks
      cases asks

/-- What is rejected is not changed. -/
theorem reject_ne {reason : String} :
    reject definition built reason context ≠ (.ok (some changed), reached) := by
  unfold reject
  intro rejects
  obtain ⟨_, _, _, ends⟩ := ok_of_bind rejects
  cases ends

/-- An annotation that is accepted is one for control, given to a definition that admits it. -/
theorem admits_of_process
    (accepts : process built node definition phase context = (.ok (some changed), reached)) :
    ∃ request, built.directive.request? = some request ∧ Admits built.directive definition := by
  unfold process at accepts
  cases isDirective : built.directive with
  | lifeCycle | cloneable => exact ⟨_, rfl, trivial⟩
  | attributeControl allowNone =>
      rw [isDirective] at accepts
      dsimp only at accepts
      split at accepts
      · exact absurd accepts reject_ne
      · exact ⟨_, rfl, admits_attributeControl_iff.mpr ‹_›⟩
  | bindingControl allowNone =>
      rw [isDirective] at accepts
      dsimp only at accepts
      split at accepts
      · exact absurd accepts reject_ne
      · exact ⟨_, rfl, admits_bindingControl_iff.mpr ‹_›⟩
  | contentControl =>
      rw [isDirective] at accepts
      dsimp only at accepts
      split at accepts
      · exact ⟨_, rfl, ‹_›⟩
      · exact absurd accepts reject_ne
  | mark | singleton | probe =>
      rw [isDirective] at accepts
      cases accepts

theorem noted_eq (directive : Directive) (definition : Definition) (node : NodePath)
    (phase : Phase) : ∃ components,
      noted directive definition node phase = { definition with components } := by
  cases directive with
  | lifeCycle =>
      unfold noted flagLifeCycle
      dsimp only
      split <;> exact ⟨_, rfl⟩
  | _ => exact ⟨_, rfl⟩

/-- What was noted is not noted again, and what is granted meanwhile does not matter. -/
theorem noted_granted (directive : Directive) (definition : Definition) (node : NodePath)
    (phase : Phase) (request : Membrane.Request) :
    noted directive ((noted directive definition node phase).granted request) node phase =
      (noted directive definition node phase).granted request := by
  cases directive with
  | lifeCycle =>
      cases phase with
      | onSubComponent =>
          cases node with
          | component index =>
              simp only [noted, flagLifeCycle, Definition.granted, List.modify_modify_eq]
              rfl
          | _ => rfl
      | _ => rfl
  | _ => rfl

theorem Admits.granted {directive : Directive} (admits : Admits directive definition)
    (node : NodePath) (phase : Phase) (request : Membrane.Request) :
    Admits directive ((noted directive definition node phase).granted request) := by
  cases directive with
  | attributeControl allowNone => exact admits
  | bindingControl allowNone =>
      refine admits.imp_right fun known => ?_
      obtain ⟨interface, member, isClient⟩ := List.any_eq_true.mp known
      exact List.any_eq_true.mpr ⟨interface, Definition.interfaces_granted.subset member, isClient⟩
  | contentControl =>
      unfold Admits Definition.isComposite
      rw [Definition.kind_granted]
      exact admits
  | _ => trivial

/-- A definition after an annotation for control was processed: only what the annotation asks for is
new, and all that was there stands first in its list. A span in memory may lose its position. -/
structure Adds (directive : Directive) (request : Membrane.Request) (node : NodePath) (phase : Phase)
    (definition changed : Definition) : Prop where
  interfaces : definition.interfaces <+: changed.interfaces
  controllers : definition.controllers <+: changed.controllers
  span : changed.span = definition.span ∨
    definition.span.isGenerated = true ∧ changed.span = .generated
  others : changed = { noted directive definition node phase with
    span := changed.span
    capabilities :=
      (definition.capabilities.union (.single .interfaces)).union (.single .controllers)
    interfaces := changed.interfaces
    controllers := changed.controllers
    decorations := { definition.decorations with
      sharedImplementations :=
        appendNew definition.decorations.sharedImplementations request.shared.toList } }

theorem adds_granted (directive : Directive) (request : Membrane.Request) (node : NodePath)
    (phase : Phase) (definition : Definition) :
    Adds directive request node phase definition
      ((noted directive definition node phase).granted request) := by
  obtain ⟨components, same⟩ := noted_eq directive definition node phase
  refine ⟨?_, ?_, ?_, ?_⟩ <;> rw [same]
  · exact Definition.interfaces_granted
  · exact Definition.controllers_granted
  · exact Definition.span_granted
  · rfl

/-- What an annotation for control adds is there and is implemented, where no controller covered
its first interface or where all was implemented before. Nothing else changes, and the annotation
changes nothing more when it is processed again. -/
theorem synthesizes_control (built : Annotation) (node : NodePath) (definition changed : Definition)
    (phase : Phase) (context reached : Context)
    (accepts : process built node definition phase context = (.ok (some changed), reached)) :
    ∃ request, built.directive.request? = some request ∧
      (∀ interface ∈ request.interfaces, (changed.interface? interface.name).isSome = true) ∧
      ((∀ interface ∈ request.interfaces, changed.Implements interface.name) ↔
        (∀ controller ∈ definition.controllers, controller.covers request.lead = false) ∨
          ∀ interface ∈ request.interfaces, definition.Implements interface.name) ∧
      Adds built.directive request node phase definition changed ∧
      reached = context ∧
      process built node changed phase reached = (.ok (some changed), reached) := by
  obtain ⟨request, asks, admits⟩ := admits_of_process accepts
  have accepted := process_of_admits asks admits node phase context
  obtain ⟨rfl, rfl⟩ : changed = (noted built.directive definition node phase).granted request ∧
      reached = context := by
    cases accepts.symm.trans accepted
    exact ⟨rfl, rfl⟩
  refine ⟨request, asks, fun _ => Definition.isSome_interface?_granted, ?_, ?_, rfl, ?_⟩
  · obtain ⟨components, same⟩ := noted_eq built.directive definition node phase
    rw [same]
    exact Definition.implements_granted_iff
  · exact adds_granted built.directive request node phase definition
  · rw [process_of_admits asks (admits.granted node phase request) node phase, noted_granted,
      Definition.granted_of_hasControl (Definition.hasControl_granted ..)]

/-- A primitive without controllers gets one that implements both interfaces for its copies, and no
other when it is made cloneable again. -/
theorem primitive_made_cloneable :
    let primitive := Definition.ofKind "a.P" .primitive
    let changed := primitive.granted .cloning
    process .cloneable .definition primitive .afterExtends default =
        (.ok (some changed), default) ∧
      (changed.Implements "factory" ∧ changed.Implements "allocator") ∧
      process .cloneable .definition changed .afterExtends default =
        (.ok (some changed), default) := by
  intro primitive changed
  have admits : Admits Annotation.cloneable.directive primitive := trivial
  have accepts : process .cloneable .definition primitive .afterExtends default =
      (.ok (some changed), default) := process_of_admits rfl admits .definition .afterExtends default
  obtain ⟨request, asks, -, implemented, -, -, again⟩ :=
    synthesizes_control .cloneable .definition primitive changed .afterExtends default default accepts
  cases asks
  have implements := implemented.mpr (.inl nofun)
  exact ⟨accepts, ⟨implements _ List.mem_cons_self,
    implements _ (List.mem_cons_of_mem _ List.mem_cons_self)⟩, again⟩

/-- A primitive with a controller of its own that makes copies, and allocates them by other means. -/
def selfCopying : Definition :=
  { Definition.ofKind "a.P" .primitive with
    interfaces := [.ofRole .server "factory" "x.Factory"]
    controllers := [(Controller.ofSource "f.c").external "factory"]
    sources := [.ofPath "p.c"] }

/-- A primitive of which a controller is the life cycle on the inner side only. -/
def selfStarting : Definition :=
  { Definition.ofKind "a.P" .primitive with
    internalInterfaces := [.ofRole .client "lifeCycleController" "x.LifeCycle"]
    controllers := [(Controller.ofSource "l.c").internal "lifeCycleController"]
    sources := [.ofPath "p.c"] }

/-- Interfaces are added that no controller implements: one beside an interface that a controller
covers already, and one that a controller covers on the other side. -/
theorem added_not_implemented :
    (∃ changed, process .cloneable .definition selfCopying .afterExtends default =
        (.ok (some changed), default) ∧
      (changed.interface? "allocator").isSome = true ∧ ¬changed.Implements "allocator") ∧
    ∃ changed, process .lifeCycleController .definition selfStarting .afterExtends default =
        (.ok (some changed), default) ∧
      (changed.interface? "lifeCycleController").isSome = true ∧
      ¬changed.Implements "lifeCycleController" :=
  ⟨⟨selfCopying.granted .cloning, rfl, by decide, by decide⟩,
    ⟨selfStarting.granted (.ofControl Membrane.lifeCycle), rfl, by decide, by decide⟩⟩

end Control

end Adl
