import Adl.Proofs.Annotation.Building
import Adl.Proofs.Annotation.Singletons
import Adl.Proofs.Loading.Inheritance

namespace Adl

open Step Context

/-! What annotations ask for. A definition that was given it keeps it, and is not changed when it
is asked for again. -/

/-! ## Controls -/

namespace Definition

/-- Interfaces for the control of a component are there, and a controller for them. -/
structure HasControl (definition : Definition) (names : List String) (covered : String)
    (shared : Option String) : Prop where
  interfaces : definition.has .interfaces = true
  controllers : definition.has .controllers = true
  exposed : ∀ name ∈ names, (definition.interface? name).isSome = true
  covered : definition.controllers.any (·.covers covered) = true
  shared : ∀ path, shared = some path → path ∈ definition.decorations.sharedImplementations

/-- A control was added. -/
def Provides (definition : Definition) (control : Membrane.Control) : Prop :=
  definition.HasControl [control.interface] control.interface control.shared

/-- What was asked for is there. -/
def Grants (definition : Definition) : Directive → Prop
  | .lifeCycle => definition.Provides Membrane.lifeCycle
  | .attributeControl allowNone =>
      (allowNone = false → definition.attributes ≠ []) ∧
        definition.Provides Membrane.attributeControl
  | .bindingControl allowNone =>
      (allowNone = false → definition.interfaces.any (·.isClient) = true) ∧
        definition.Provides Membrane.bindingControl
  | .contentControl => definition.isComposite = true ∧ definition.Provides Membrane.contentControl
  | .cloneable => definition.HasControl ["factory", "allocator"] "factory" none
  | .mark | .singleton | .probe _ _ => True

theorem isSome_interface? {definition : Definition} {name : String} :
    (definition.interface? name).isSome = true ↔
      name ∈ (definition.interfaces.map Interface.withoutTyped).map (·.name) := by
  rw [List.map_map]
  simp [interface?, Interface.withoutTyped]

variable {original changed definition extended : Definition} {names : List String}
  {covered : String} {shared : Option String}

/-! What is added to the membrane stays there. -/

namespace Subsumes

theorem isSome_interface? (subsumes : changed.Subsumes original) {name : String}
    (exposed : (original.interface? name).isSome = true) :
    (changed.interface? name).isSome = true :=
  Definition.isSome_interface?.mpr
    (List.map_subset _ subsumes.interfaces (Definition.isSome_interface?.mp exposed))

theorem any_covers (subsumes : changed.Subsumes original) {name : String}
    (covered : original.controllers.any (·.covers name) = true) :
    changed.controllers.any (·.covers name) = true := by
  obtain ⟨controller, among, covers⟩ := List.any_eq_true.mp covered
  obtain ⟨other, otherAmong, same⟩ :=
    List.mem_map.mp (subsumes.controllers (List.mem_map_of_mem among))
  have interfaces : other.withoutTyped.interfaces = controller.withoutTyped.interfaces :=
    congrArg Controller.interfaces same
  refine List.any_eq_true.mpr ⟨other, otherAmong, ?_⟩
  change other.withoutTyped.interfaces.any _ = true
  rw [interfaces]
  exact covers

theorem any_isClient (subsumes : changed.Subsumes original)
    (known : original.interfaces.any (·.isClient) = true) :
    changed.interfaces.any (·.isClient) = true := by
  obtain ⟨interface, member, isClient⟩ := List.any_eq_true.mp known
  obtain ⟨other, among, same⟩ :=
    List.mem_map.mp (subsumes.interfaces (List.mem_map_of_mem member))
  have role : other.withoutTyped.role = interface.withoutTyped.role :=
    congrArg Interface.role same
  refine List.any_eq_true.mpr ⟨other, among, ?_⟩
  change (other.withoutTyped.role == .client) = true
  rw [role]
  exact isClient

theorem attributes_ne_nil (subsumes : changed.Subsumes original)
    (present : original.attributes ≠ []) : changed.attributes ≠ [] := by
  intro none
  have attributes := subsumes.attributes
  rw [none, List.map_nil, List.subset_nil, List.map_eq_nil_iff] at attributes
  exact present attributes

end Subsumes

theorem Edit.sharedImplementations (edit : Edit original changed) :
    original.decorations.sharedImplementations ⊆ changed.decorations.sharedImplementations := by
  cases edit with
  | annotated path => cases path <;> exact List.Subset.refl _
  | described _ _ _ extending => exact extending.sharedImplementations
  | _ => exact List.Subset.refl _

namespace Edits

theorem subsumes (edits : original.Edits changed) : changed.Subsumes original := by
  induction edits with
  | refl => exact .refl original
  | tail _ edit induction => exact edit.subsumes.trans induction

theorem sharedImplementations (edits : original.Edits changed) :
    original.decorations.sharedImplementations ⊆ changed.decorations.sharedImplementations := by
  induction edits with
  | refl => exact List.Subset.refl _
  | tail _ edit induction => exact List.Subset.trans induction edit.sharedImplementations

end Edits

/-- One definition has all of the membrane of another, and is of its kind. -/
structure Continues (changed original : Definition) : Prop extends changed.Subsumes original where
  kind : changed.kind = original.kind
  sharedImplementations :
    original.decorations.sharedImplementations ⊆ changed.decorations.sharedImplementations

theorem Edits.continues (edits : original.Edits changed) : changed.Continues original :=
  ⟨edits.subsumes, edits.kind, edits.sharedImplementations⟩

theorem HasControl.continued (continues : changed.Continues original)
    (has : original.HasControl names covered shared) : changed.HasControl names covered shared where
  interfaces := (continues.capabilities _ has.interfaces).resolve_right (by decide)
  controllers := (continues.capabilities _ has.controllers).resolve_right (by decide)
  exposed name member := continues.isSome_interface? (has.exposed name member)
  covered := continues.any_covers has.covered
  shared path isShared := continues.sharedImplementations (has.shared path isShared)

theorem Grants.continued (continues : changed.Continues original) {directive : Directive}
    (grants : original.Grants directive) : changed.Grants directive := by
  cases directive with
  | lifeCycle => exact HasControl.continued continues grants
  | attributeControl allowNone =>
      exact ⟨fun needed => continues.attributes_ne_nil (grants.1 needed),
        HasControl.continued continues grants.2⟩
  | bindingControl allowNone =>
      exact ⟨fun needed => continues.any_isClient (grants.1 needed),
        HasControl.continued continues grants.2⟩
  | contentControl =>
      refine ⟨?_, HasControl.continued continues grants.2⟩
      rw [isComposite, continues.kind]
      exact grants.1
  | cloneable => exact HasControl.continued continues grants
  | mark | singleton | probe => trivial

theorem Grants.edits (edits : original.Edits changed) {directive : Directive}
    (grants : original.Grants directive) : changed.Grants directive :=
  grants.continued edits.continues

/-! ## Requests -/

/-- What was requested is there. -/
theorem hasControl_granted (definition : Definition) (request : Membrane.Request) :
    (definition.granted request).HasControl (request.interfaces.map Interface.name) request.lead
      request.shared where
  interfaces := has_granted definition request _ List.mem_cons_self
  controllers := has_granted definition request _ (List.mem_cons_of_mem _ List.mem_cons_self)
  exposed name member := by
    obtain ⟨interface, among, rfl⟩ := List.mem_map.mp member
    exact isSome_interface?_granted among
  covered := any_covers_granted definition request
  shared path isShared := (mem_appendNew _ _).mpr (.inr (Option.mem_toList.mpr isShared))

/-- What is there is not added again. -/
theorem granted_of_hasControl {request : Membrane.Request}
    (has : definition.HasControl (request.interfaces.map Interface.name) request.lead
      request.shared) : definition.granted request = definition := by
  have span : definition.spanWith [.interfaces, .controllers] = definition.span :=
    if_pos (by simp [has.interfaces, has.controllers])
  have capabilities : (definition.capabilities.union (.single .interfaces)).union
      (.single .controllers) = definition.capabilities := by
    rw [MemberSet.union_single_of_contains has.interfaces,
      MemberSet.union_single_of_contains has.controllers]
  have interfaces : addNew Interface.name definition.interfaces request.interfaces =
      definition.interfaces := by
    refine addNew.of_known fun interface member => ?_
    simpa [interface?] using has.exposed _ (List.mem_map_of_mem member)
  have shared : appendNew definition.decorations.sharedImplementations request.shared.toList =
      definition.decorations.sharedImplementations := by
    rw [appendNew_eq]
    refine addNew.of_known fun path member => ?_
    rw [List.map_id]
    exact has.shared path (Option.mem_toList.mp member)
  rw [granted, span, capabilities, interfaces, shared, if_pos has.covered]

theorem provides_of_addControl {control : Membrane.Control}
    (succeeds : definition.addControl control = .ok extended) : extended.Provides control := by
  cases (addControl_eq_ok definition control).symm.trans succeeds
  exact hasControl_granted definition (.ofControl control)

/-- A control that is there is not added again. -/
theorem addControl_of_provides {control : Membrane.Control} (provides : definition.Provides control) :
    definition.addControl control = .ok definition := by
  have same : definition.granted (.ofControl control) = definition := granted_of_hasControl provides
  rw [addControl_eq_ok, same]

theorem hasControl_of_addCloning (succeeds : definition.addCloning = .ok extended) :
    extended.HasControl ["factory", "allocator"] "factory" none := by
  cases (addCloning_eq_ok definition).symm.trans succeeds
  exact hasControl_granted definition .cloning

theorem addCloning_of_hasControl
    (has : definition.HasControl ["factory", "allocator"] "factory" none) :
    definition.addCloning = .ok definition := by
  have same : definition.granted .cloning = definition := granted_of_hasControl has
  rw [addCloning_eq_ok, same]

end Definition

/-! ## Processors -/

namespace Control

variable {definition : Definition} {built : Annotation} {path : NodePath} {phase : Phase}
  {context : Context}

theorem agree_extended_grants {result : Except MergeConflict Definition} {directive : Directive}
    (grants : ∀ changed, result = .ok changed → changed.Grants directive) :
    Agree reporting context (extended result) (extended result)
      fun changed reached => reached.log.errors = [] →
        (changed.getD definition).Grants directive := by
  cases result with
  | ok changed => exact .pure trivial fun _ => grants changed rfl
  | error conflict => exact .fail trivial (LoadError.isGrave_internal _)

theorem agree_reject_grants (reason : String) {directive : Directive} :
    Agree reporting context (reject definition built reason) (reject definition built reason)
      fun changed reached => reached.log.errors = [] →
        (changed.getD definition).Grants directive := by
  refine .bind (Loading.agree_recordError _ _ _) ?_
  intro _ reached _ _ recorded
  exact .pure trivial fun silent => absurd silent recorded

/-- What an annotation asks for is granted, unless errors are reported. -/
theorem agree_process_grants (built : Annotation) (path : NodePath) (definition : Definition)
    (phase : Phase) (context : Context) :
    Agree reporting context (process built path definition phase)
      (process built path definition phase)
      fun changed reached => reached.log.errors = [] →
        (changed.getD definition).Grants built.directive := by
  unfold process
  cases built.directive with
  | lifeCycle =>
      exact agree_extended_grants fun changed =>
        Definition.provides_of_addControl
  | attributeControl allowNone =>
      dsimp only
      split
      · exact agree_reject_grants _
      · rename_i admitted
        refine agree_extended_grants fun changed succeeds =>
          ⟨fun needed => ?_, Definition.provides_of_addControl succeeds⟩
        have edits := Definition.addControl_edits (by decide) (by decide) succeeds
        refine edits.subsumes.attributes_ne_nil fun none => admitted ?_
        rw [needed, none]
        rfl
  | bindingControl allowNone =>
      dsimp only
      split
      · exact agree_reject_grants _
      · rename_i admitted
        refine agree_extended_grants fun changed succeeds =>
          ⟨fun needed => ?_, Definition.provides_of_addControl succeeds⟩
        have edits := Definition.addControl_edits (by decide) (by decide) succeeds
        refine edits.subsumes.any_isClient ?_
        rw [needed] at admitted
        simpa using admitted
  | contentControl =>
      dsimp only
      split
      · rename_i composite
        refine agree_extended_grants fun changed succeeds =>
          ⟨?_, Definition.provides_of_addControl succeeds⟩
        have edits := Definition.addControl_edits (by decide) (by decide) succeeds
        rw [Definition.isComposite, edits.kind]
        exact composite
      · exact agree_reject_grants _
  | cloneable => exact agree_extended_grants fun changed => Definition.hasControl_of_addCloning
  | mark | singleton | probe => exact .pure trivial fun _ => trivial

/-- What was granted is left as it is. -/
theorem process_of_grants (grants : definition.Grants built.directive)
    (flagged : flagLifeCycle definition path phase = definition) :
    ∃ changed, process built path definition phase context = (.ok changed, context) ∧
      changed.getD definition = definition := by
  unfold process
  cases isDirective : built.directive with
  | lifeCycle =>
      rw [isDirective] at grants
      dsimp only
      rw [flagged, Definition.addControl_of_provides grants]
      exact ⟨some definition, rfl, rfl⟩
  | attributeControl allowNone =>
      rw [isDirective] at grants
      have admitted : ¬(!allowNone && definition.attributes.isEmpty) = true := by
        intro refused
        obtain ⟨needed, none⟩ := Bool.and_eq_true_iff.mp refused
        exact grants.1 (by simpa using needed) (List.isEmpty_iff.mp none)
      dsimp only
      rw [if_neg admitted, Definition.addControl_of_provides grants.2]
      exact ⟨some definition, rfl, rfl⟩
  | bindingControl allowNone =>
      rw [isDirective] at grants
      have admitted : ¬(!allowNone && !definition.interfaces.any (·.isClient)) = true := by
        intro refused
        obtain ⟨needed, none⟩ := Bool.and_eq_true_iff.mp refused
        rw [grants.1 (by simpa using needed)] at none
        exact nomatch none
      dsimp only
      rw [if_neg admitted, Definition.addControl_of_provides grants.2]
      exact ⟨some definition, rfl, rfl⟩
  | contentControl =>
      rw [isDirective] at grants
      dsimp only
      rw [if_pos grants.1, Definition.addControl_of_provides grants.2]
      exact ⟨some definition, rfl, rfl⟩
  | cloneable =>
      rw [isDirective] at grants
      dsimp only
      rw [Definition.addCloning_of_hasControl grants]
      exact ⟨some definition, rfl, rfl⟩
  | mark | singleton | probe => exact ⟨none, rfl, rfl⟩

end Control

/-! ## After the parents -/

/-- One definition follows from another by edits that annotate nothing. -/
def Definition.IsEquipped (original changed : Definition) : Prop :=
  original.Edits changed ∧ changed.annotations = original.annotations

namespace Definition.IsEquipped

variable {first second third : Definition}

theorem refl (definition : Definition) : definition.IsEquipped definition :=
  ⟨.refl definition, rfl⟩

theorem trans (left : first.IsEquipped second) (right : second.IsEquipped third) :
    first.IsEquipped third :=
  ⟨left.1.trans right.1, right.2.trans left.2⟩

end Definition.IsEquipped

namespace AnnotationRegistry

variable {definition : Definition} {context : Context}

/-- What is due once parents were merged is a matter of controllers. -/
theorem processor?_of_afterExtends {built : Annotation} (isPredefined : built.IsPredefined)
    (due : built.phases.contains .afterExtends = true) :
    predefined.processor? built.kind = some Control.process := by
  rcases isPredefined.cases with
    rfl | rfl | rfl | ⟨allowNone, rfl⟩ | ⟨allowNone, rfl⟩ | rfl | rfl | rfl
  · exact absurd due (by decide)
  · exact absurd due (by decide)
  · rfl
  · cases allowNone <;> rfl
  · cases allowNone <;> rfl
  · rfl
  · rfl
  · exact absurd due (by decide)

/-- All that is asked for is granted, one thing after the other. -/
theorem agree_runProcessors_grants {built : List Annotation}
    (due : ∀ item ∈ built, item.IsPredefined ∧ item.phases.contains .afterExtends = true)
    (path : NodePath) (definition : Definition) (context : Context) :
    Agree reporting context (built.foldlM (predefined.runProcessor .afterExtends path) definition)
      (built.foldlM (predefined.runProcessor .afterExtends path) definition)
      fun changed reached => definition.IsEquipped changed ∧
        ∀ item ∈ built, reached.log.errors = [] → changed.Grants item.directive := by
  refine .foldlM_all Definition.IsEquipped
    (fun (item : Annotation) (changed : Definition) (reached : Context) =>
      reached.log.errors = [] → changed.Grants item.directive) .refl .trans
    (fun _ _ _ _ _ moves _ _ reports grants silent =>
      (grants (reports.evolves.errors_eq_nil silent)).edits moves.1) trivial ?_
  intro item member changed reached _ _ _
  obtain ⟨isPredefined, isDue⟩ := due item member
  unfold runProcessor
  rw [processor?_of_afterExtends isPredefined isDue]
  refine .bind (((Control.isHarmless_process item path changed .afterExtends reached).and
    (Control.agree_process_marked item path changed .afterExtends reached)).and
    (Control.agree_process_grants item path changed .afterExtends reached)) ?_
  exact fun _ _ _ _ ⟨⟨edits, alike⟩, grants⟩ => .pure trivial ⟨⟨edits, alike.annotations⟩, grants⟩

theorem agree_processDefinition_grants (ordinary : definition.IsOrdinary) (context : Context) :
    Agree reporting context (predefined.processDefinition .afterExtends definition)
      (predefined.processDefinition .afterExtends definition)
      fun changed reached => definition.IsEquipped changed ∧ (reached.log.errors = [] →
        ∀ built ∈ definition.annotations.typed, built.phases.contains .afterExtends = true →
          changed.Grants built.directive) := by
  refine (Agree.foldlM_all Definition.IsEquipped
    (fun (path : NodePath) (changed : Definition) (reached : Context) => path = .definition →
      reached.log.errors = [] → ∀ built ∈ definition.annotations.typed,
        built.phases.contains .afterExtends = true → changed.Grants built.directive) .refl .trans
    (fun _ _ _ _ _ moves _ _ reports grants same silent built member isDue =>
      (grants same (Reports.evolves reports |>.errors_eq_nil silent) built member isDue).edits
        moves.1) trivial ?_).mono fun _ _ _ _ holds => ⟨holds.1, holds.2 .definition (by simp [Definition.nodePaths]) rfl⟩
  intro path _ changed reached _ moves _
  refine (agree_runProcessors_grants (fun item member => ?_) path changed reached).mono ?_
  · obtain ⟨among, isDue⟩ := List.mem_filter.mp member
    refine ⟨?_, isDue⟩
    cases found : changed.annotationsAt? path with
    | none =>
        rw [found] at among
        cases among
    | some annotations =>
        rw [found] at among
        exact (ordinary.edits moves.1).at found item among
  · rintro last later _ _ ⟨further, grants⟩
    refine ⟨further, ?_⟩
    rintro rfl silent built member isDue
    refine grants built (List.mem_filter.mpr ⟨?_, isDue⟩) silent
    change built ∈ changed.annotations.typed
    rwa [moves.2]

variable {name : String} {id : DefinitionId}

theorem agree_processStored_grants (making : Making name id context)
    (ordinary : (context.definition id).IsOrdinary) :
    Agree (editing name id) context (predefined.processStored .afterExtends id)
      (predefined.processStored .afterExtends id)
      fun _ reached => (context.definition id).IsEquipped (reached.definition id) ∧
        (reached.log.errors = [] → ∀ built ∈ (reached.definition id).annotations.typed,
          built.phases.contains .afterExtends = true →
            (reached.definition id).Grants built.directive) := by
  refine .read rfl ?_
  split
  · rename_i isAsked
    have named := making.names.named (isDue .afterExtends) (fun _ => rfl) isAsked
    refine (Loading.agree_replace_edited (fun changed reached =>
      (context.definition id).IsEquipped changed ∧ (reached.log.errors = [] →
        ∀ built ∈ (context.definition id).annotations.typed,
          built.phases.contains .afterExtends = true → changed.Grants built.directive)) making named
      ((agree_processDefinition_grants ordinary context).mono
        fun _ _ _ _ holds => ⟨holds.1.1, holds⟩)).mono ?_
    rintro _ reached _ _ ⟨before, changed, -, ⟨equips, grants⟩, same, stored⟩
    rw [stored, equips.2]
    exact ⟨equips, fun silent => grants ((congrArg (·.log.errors) same).symm.trans silent)⟩
  · rename_i idle
    refine .pure making ⟨.refl _, fun _ built member isDue => absurd (List.any_eq_true.mpr
      ⟨.definition, by simp [Definition.nodePaths], ?_⟩) idle⟩
    have present : built ∈ due .afterExtends (context.definition id).annotations :=
      List.mem_filter.mpr ⟨member, isDue⟩
    simpa [Definition.annotationsAt?] using List.ne_nil_of_mem present

end AnnotationRegistry

/-! ## For sub-components -/

namespace Definition

/-- It is noted on a sub-component that its definition has a life cycle. -/
def IsFlagged (definition : Definition) (index : Nat) : Prop :=
  ∃ component, definition.components[index]? = some component ∧
    component.hasLifeCycleController = true

namespace IsFlagged

variable {original changed : Definition} {index : Nat}

theorem modified {definition : Definition} {position : Nat} {change : Component → Component}
    (keeps : ∀ component, component.hasLifeCycleController = true →
      (change component).hasLifeCycleController = true) (flagged : definition.IsFlagged index) :
    { definition with components := definition.components.modify position change }.IsFlagged
      index := by
  obtain ⟨component, found, flag⟩ := flagged
  refine ⟨if position = index then change component else component, ?_, ?_⟩
  · rw [List.getElem?_modify, found]
    rfl
  · split
    · exact keeps component flag
    · exact flag

theorem edit (edit : Edit original changed) (flagged : original.IsFlagged index) :
    changed.IsFlagged index := by
  cases edit with
  | annotated path =>
      cases path with
      | component position => exact flagged.modified fun _ => id
      | _ => exact flagged
  | flagged position => exact flagged.modified fun _ _ => rfl
  | forwarded parameter => exact flagged.modified fun _ => id
  | _ => exact flagged

theorem edits (edits : original.Edits changed) (flagged : original.IsFlagged index) :
    changed.IsFlagged index := by
  induction edits with
  | refl => exact flagged
  | tail _ edit induction => exact induction.edit edit

/-- A flag is not set again. -/
theorem flagLifeCycle_eq {definition : Definition} (flagged : definition.IsFlagged index)
    (phase : Phase) :
    Control.flagLifeCycle definition (.component index) phase = definition := by
  obtain ⟨component, found, flag⟩ := flagged
  unfold Control.flagLifeCycle
  split
  · rename_i position same
    cases same
    have noted : definition.components.modify index (fun component =>
        { component with hasLifeCycleController := true }) = definition.components := by
      refine (modify_eq_of_forall fun other isOther => ?_).trans (List.modify_id ..)
      cases found.symm.trans isOther
      simp [← flag]
    rw [noted]
  · rfl

end IsFlagged

end Definition

namespace AnnotationRegistry

variable {definition : Definition} {context : Context}

/-- Two kinds matter where their definition is instantiated. -/
theorem eq_of_onSubComponent {built : Annotation} (isPredefined : built.IsPredefined)
    (due : built.phases.contains .onSubComponent = true) :
    built = .singleton ∨ built = .lifeCycleController := by
  have early : (MemberSet.single Phase.afterExtends).contains .onSubComponent = false := by decide
  rcases isPredefined.cases with rfl | rfl | rfl | ⟨_, rfl⟩ | ⟨_, rfl⟩ | rfl | rfl | rfl
  · exact absurd due (by decide)
  · exact .inl rfl
  · exact .inr rfl
  · cases early.symm.trans due
  · cases early.symm.trans due
  · cases early.symm.trans due
  · cases early.symm.trans due
  · exact absurd due (by decide)

/-- A composite is told that a part of it has a life cycle. -/
def MindsLifeCycle (definition : Definition) (index : Nat) : Prop :=
  definition.IsFlagged index ∧ definition.Provides Membrane.lifeCycle

theorem MindsLifeCycle.edits {original changed : Definition} {index : Nat}
    (edits : original.Edits changed) (minds : MindsLifeCycle original index) :
    MindsLifeCycle changed index :=
  ⟨minds.1.edits edits, Definition.HasControl.continued edits.continues minds.2⟩

theorem agree_lifeCycle_minds {component : Component} {index : Nat}
    (found : definition.components[index]? = some component) :
    Agree reporting context
      (Control.process .lifeCycleController (.component index) definition .onSubComponent)
      (Control.process .lifeCycleController (.component index) definition .onSubComponent)
      fun changed _ => MindsLifeCycle (changed.getD definition) index := by
  have flagged : (Control.flagLifeCycle definition (.component index)
      .onSubComponent).IsFlagged index := by
    refine ⟨{ component with hasLifeCycleController := true }, ?_, rfl⟩
    simp [Control.flagLifeCycle, found]
  change Agree reporting context (Control.extended _) (Control.extended _) _
  cases succeeds : (Control.flagLifeCycle definition (.component index) .onSubComponent).addControl
      Membrane.lifeCycle with
  | ok changed =>
      exact .pure trivial ⟨flagged.edits (Definition.addControl_edits (by decide) (by decide) succeeds),
        Definition.provides_of_addControl succeeds⟩
  | error conflict => exact .fail trivial (LoadError.isGrave_internal _)

theorem agree_runProcessors_minds (built : List Annotation) {component : Component} {index : Nat}
    (found : definition.components[index]? = some component) (context : Context) :
    Agree reporting context
      (built.foldlM (predefined.runProcessor .onSubComponent (.component index)) definition)
      (built.foldlM (predefined.runProcessor .onSubComponent (.component index)) definition)
      fun changed _ => definition.Edits changed ∧
        (.lifeCycleController ∈ built → MindsLifeCycle changed index) := by
  refine (Agree.foldlM_all Definition.Edits
    (fun (item : Annotation) (changed : Definition) (_ : Context) => item = .lifeCycleController →
      MindsLifeCycle changed index) .refl .trans
    (fun _ _ _ _ _ edits _ _ _ minds same => (minds same).edits edits) trivial ?_).mono
    fun _ _ _ _ holds => ⟨holds.1, fun member => holds.2 _ member rfl⟩
  intro item _ changed reached _ edits _
  by_cases isLifeCycle : item = .lifeCycleController
  · cases isLifeCycle
    have within : index < changed.components.length := by
      have same := congrArg List.length edits.keeps.links
      rw [Definition.links, Definition.links, List.length_map, List.length_map] at same
      exact same ▸ (List.getElem?_eq_some_iff.mp found).1
    unfold runProcessor
    rw [show predefined.processor? Annotation.lifeCycleController.kind = some Control.process from rfl]
    refine .bind ((Control.isHarmless_process _ _ changed _ reached).and
      (agree_lifeCycle_minds (List.getElem?_eq_getElem within))) ?_
    exact fun _ _ _ _ holds => .pure trivial ⟨holds.1, fun _ => holds.2⟩
  · exact (agree_runProcessor isHarmless_predefined _ item (.refl changed)).mono
      fun _ _ _ _ edits => ⟨edits, fun same => absurd same isLifeCycle⟩

/-- A definition that has a part with a life cycle minds it after the turn of its parts. -/
theorem agree_processSubComponents_minds (indices : List Nat) (definition : Definition)
    (context : Context) :
    Agree reporting context (predefined.processSubComponents .onSubComponent definition indices)
      (predefined.processSubComponents .onSubComponent definition indices)
      fun changed _ => ∀ index ∈ indices, ∀ part, definition.part? index = some part →
        .lifeCycleController ∈ (context.definition part).annotations.typed →
          MindsLifeCycle changed index := by
  refine (Agree.foldlM_all Definition.Edits
    (fun (index : Nat) (changed : Definition) (_ : Context) => ∀ part,
      definition.part? index = some part →
        .lifeCycleController ∈ (context.definition part).annotations.typed →
          MindsLifeCycle changed index) .refl .trans
    (fun _ _ _ _ _ edits _ _ _ minds part isPart member => (minds part isPart member).edits edits)
    trivial ?_).mono fun _ _ _ _ holds => holds.2
  rintro index - changed reached - edits reports
  have same := edits.keeps.part? index
  unfold processSubComponent
  change (changed.components[index]?.bind fun component => component.resolvedId?) = _ at same
  rw [same]
  cases isPart : definition.part? index with
  | none => exact .pure trivial ⟨.refl changed, nofun⟩
  | some part =>
      obtain ⟨component, found, -⟩ := Option.bind_eq_some_iff.mp (same.trans isPart)
      refine .read rfl ((agree_runProcessors_minds _ found reached).mono ?_)
      rintro last _ _ _ ⟨further, minds⟩
      refine ⟨further, fun other isOther member => minds ?_⟩
      cases isOther
      rw [Reports.definition reports]
      exact List.mem_filter.mpr ⟨member, by decide⟩

variable {name : String} {id : DefinitionId}

theorem agree_processStoredSubComponents_minds (making : Making name id context) :
    Agree (editing name id) context (predefined.processStoredSubComponents id)
      (predefined.processStoredSubComponents id)
      fun _ reached => ∀ index part, (context.definition id).part? index = some part →
        .lifeCycleController ∈ (context.definition part).annotations.typed →
          MindsLifeCycle (reached.definition id) index :=
  agree_processStoredSubComponents_done (by decide) making fun indices =>
    agree_processSubComponents_minds indices _ context

end AnnotationRegistry

end Adl
