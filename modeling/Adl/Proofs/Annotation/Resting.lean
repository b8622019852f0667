import Adl.Proofs.Annotation.Checking
import Adl.Proofs.Annotation.Granting

namespace Adl

open Step Context

/-! Stages that come to annotations a second time. The check builds them as they are written; what
they ask for was done, and it is not done again. -/

namespace AnnotationRegistry

variable {registry : AnnotationRegistry} {definition : Definition} {id : DefinitionId}
  {context : Context} {phase : Phase}

/-! ## Building -/

/-- The check builds all annotations as they are written, where none are built without being
written. -/
theorem checkDefinition_of_built (harmless : registry.IsHarmless)
    (built : (context.definition id).Everywhere fun target annotations =>
      (annotations.nodes = [] → annotations.typed = []) ∧
        (annotations.rebuilt target).AreBuilt target) :
    registry.checkDefinition id context =
      (.ok (), context.replace id ((context.definition id).mapAnnotations Annotations.rebuilt)) := by
  rw [checkDefinition_eq_revise (built.mono fun _ _ built => built.1)]
  refine Loading.revise_of_ok ?_
  rw [← Definition.foldl_modifyAnnotationsAt]
  refine (checkElements_of_ok (fun _ => True) (fun target => predefined.accepted target [])
    (fun _ context => context) (fun path member reached _ => ⟨?_, trivial⟩) trivial).trans ?_
  · obtain ⟨annotations, found⟩ :=
      Option.isSome_iff_exists.mp (Definition.mem_nodePaths_iff.mp member)
    obtain ⟨builds, apart⟩ := (built.at found).2
    rw [Definition.nodesAt_of_some found]
    exact @checkNodes_of_built registry path.target [] _ _ harmless builds apart reached
  · rw [List.foldl_fixed]
    rfl

/-- Annotations that are built stay as they are. -/
theorem checkDefinition_of_areBuilt (harmless : registry.IsHarmless)
    (built : (context.definition id).Everywhere Annotations.AreBuilt) :
    registry.checkDefinition id context = (.ok (), context) := by
  have same : (context.definition id).mapAnnotations Annotations.rebuilt = context.definition id :=
    (built.mono fun _ _ built => built.rebuilt).mapAnnotations_eq
  rw [checkDefinition_of_built harmless (built.mono fun target annotations built => ⟨fun none => ?_, ?_⟩),
    same, replace_definition]
  · have each := built.built
    rw [none] at each
    exact List.forall₂_nil_left_iff.mp each
  · rw [built.rebuilt]
    exact built

/-! ## Processing -/

/-- Where nothing that is due changes a definition, it stays as it is. -/
theorem processStored_of_stays
    (stays : ∀ path annotations, (context.definition id).annotationsAt? path = some annotations →
      ∀ built ∈ annotations.typed, built.phases.contains phase = true →
        registry.runProcessor phase path (context.definition id) built context =
          (.ok (context.definition id), context)) :
    registry.processStored phase id context = (.ok (), context) := by
  refine read_bind rfl ?_
  split
  · have processed : registry.processDefinition phase (context.definition id) context =
        (.ok (context.definition id), context) := by
      refine foldlM_of_stays fun path _ => foldlM_of_stays fun built member => ?_
      obtain ⟨among, isDue⟩ := List.mem_filter.mp member
      cases found : (context.definition id).annotationsAt? path with
      | none =>
          rw [found] at among
          exact nomatch among
      | some annotations =>
          rw [found] at among
          exact stays path annotations found built among isDue
    exact (bind_of_ok processed).trans (Loading.replace_of_same rfl)
  · rfl

/-- A processor that gives back the definition, or nothing. -/
theorem runProcessor_of_process {processor : Processor} {built : Annotation} {path : NodePath}
    (found : registry.processor? built.kind = some processor)
    (stays : ∃ changed, processor built path definition phase context = (.ok changed, context) ∧
      changed.getD definition = definition) :
    registry.runProcessor phase path definition built context = (.ok definition, context) := by
  obtain ⟨changed, processed, same⟩ := stays
  exact runProcessor_eq_ok_iff.mpr ⟨processor, changed, found, processed, same⟩

/-- No predefined annotation asks for anything before parents are merged. -/
theorem processStored_afterParsing (ordinary : (context.definition id).IsOrdinary) :
    predefined.processStored .afterParsing id context = (.ok (), context) := by
  refine processStored_of_stays fun path annotations found built member isDue => ?_
  have early : (MemberSet.single Phase.afterExtends).contains .afterParsing = false := by decide
  rcases (ordinary.at found built member).cases with rfl | rfl | rfl | ⟨_, rfl⟩ | ⟨_, rfl⟩ | rfl | rfl | rfl
  · exact absurd isDue (by decide)
  · exact absurd isDue (by decide)
  · exact absurd isDue (by decide)
  · cases early.symm.trans isDue
  · cases early.symm.trans isDue
  · cases early.symm.trans isDue
  · cases early.symm.trans isDue
  · exact absurd isDue (by decide)

theorem eq_definition_of_single {target : Target}
    (admitted : (MemberSet.single Target.definition).contains target = true) :
    target = .definition := by
  cases target with
  | definition => rfl
  | _ => exact absurd admitted (by decide)

theorem eq_definition_of_afterExtends {built : Annotation} (isPredefined : built.IsPredefined)
    (due : built.phases.contains .afterExtends = true) {target : Target}
    (admitted : built.targets.contains target = true) : target = .definition := by
  rcases isPredefined.cases with rfl | rfl | rfl | ⟨_, rfl⟩ | ⟨_, rfl⟩ | rfl | rfl | rfl
  · exact absurd due (by decide)
  all_goals exact eq_definition_of_single admitted

/-- What was granted is not granted again. -/
theorem processStored_afterExtends
    (built : (context.definition id).Everywhere Annotations.AreBuilt)
    (granted : ∀ item ∈ (context.definition id).annotations.typed,
      item.phases.contains .afterExtends = true → (context.definition id).Grants item.directive) :
    predefined.processStored .afterExtends id context = (.ok (), context) := by
  refine processStored_of_stays fun path annotations found item member isDue => ?_
  have isPredefined := (built.at found).isPredefined item member
  have onDefinition := eq_definition_of_afterExtends isPredefined isDue
    ((built.at found).admitted item member)
  cases path with
  | definition =>
      cases found
      exact runProcessor_of_process (processor?_of_afterExtends isPredefined isDue)
        (Control.process_of_grants (granted item member isDue) rfl)
  | _ => exact nomatch onDefinition

/-- What was settled as a singleton is one already. -/
theorem processStored_afterChecking
    (built : (context.definition id).Everywhere Annotations.AreBuilt)
    (settled : .singleton ∈ (context.definition id).annotations.typed →
      (context.definition id).decorations.singleton = true ∧
        Singleton.duplicates context .empty (context.definition id).resolvedComponents = []) :
    predefined.processStored .afterChecking id context = (.ok (), context) := by
  refine processStored_of_stays fun path annotations found item member isDue => ?_
  rcases eq_of_afterChecking ((built.at found).isPredefined item member) isDue with rfl | rfl
  · have onDefinition := eq_definition_of_single ((built.at found).admitted _ member)
    cases path with
    | definition =>
        cases found
        obtain ⟨decorated, none⟩ := settled member
        refine runProcessor_of_process processor?_singleton ⟨.none, ?_, rfl⟩
        have unreported : Loading.recordAll (Singleton.duplicates context .empty
            (context.definition id).resolvedComponents) context = (.ok (), context) := by
          rw [none]
          rfl
        refine read_bind rfl (read_bind unreported ?_)
        rw [decorated]
        rfl
    | _ => exact nomatch onDefinition
  · exact runProcessor_of_process processor?_dump ⟨.none, rfl, rfl⟩

/-! ## Sub-components -/

/-- A composite minds what its parts are. -/
structure MindsParts (context : Context) (definition : Definition) : Prop where
  predefined : ∀ index part, definition.part? index = some part →
    (context.definition part).annotations.ArePredefined
  spread : ∀ index part, definition.part? index = some part →
    .singleton ∈ (context.definition part).annotations.typed →
      definition.annotations.has Annotation.singletonKind = true
  lifeCycle : ∀ index part, definition.part? index = some part →
    .lifeCycleController ∈ (context.definition part).annotations.typed →
      MindsLifeCycle definition index

theorem MindsParts.of_same {later : Context} {definition : Definition}
    (minds : MindsParts context definition)
    (same : ∀ index part, definition.part? index = some part →
      later.definition part = context.definition part) : MindsParts later definition where
  predefined index part isPart := same index part isPart ▸ minds.predefined index part isPart
  spread index part isPart member :=
    minds.spread index part isPart (same index part isPart ▸ member)
  lifeCycle index part isPart member :=
    minds.lifeCycle index part isPart (same index part isPart ▸ member)

theorem processSubComponent_of_no_part {registry : AnnotationRegistry} {phase : Phase}
    {definition : Definition} {index : Nat} (isPart : definition.part? index = none) :
    registry.processSubComponent phase definition index context = (.ok definition, context) := by
  unfold Definition.part? at isPart
  unfold processSubComponent
  rw [isPart]
  rfl

theorem processSubComponent_of_part {registry : AnnotationRegistry} {phase : Phase}
    {definition : Definition} {index : Nat} {part : DefinitionId}
    (isPart : definition.part? index = some part) :
    registry.processSubComponent phase definition index context =
      (due phase (context.definition part).annotations).foldlM
        (registry.runProcessor phase (.component index)) definition context := by
  unfold Definition.part? at isPart
  unfold processSubComponent
  rw [isPart]
  rfl

/-- What a composite minds is not told again. -/
theorem processStoredSubComponents_of_minds (minds : MindsParts context (context.definition id)) :
    predefined.processStoredSubComponents id context = (.ok (), context) := by
  have stays : ∀ index, predefined.processSubComponent .onSubComponent (context.definition id) index
      context = (.ok (context.definition id), context) := by
    intro index
    cases isPart : (context.definition id).part? index with
    | none => exact processSubComponent_of_no_part isPart
    | some part =>
        refine (processSubComponent_of_part isPart).trans (foldlM_of_stays fun item member => ?_)
        obtain ⟨among, isDue⟩ := List.mem_filter.mp member
        rcases eq_of_onSubComponent (minds.predefined index part isPart item among) isDue with
          rfl | rfl
        · refine runProcessor_of_process processor?_singleton ⟨.none, ?_, rfl⟩
          change Singleton.spread _ _ _ context = _
          unfold Singleton.spread
          rw [if_pos (minds.spread index part isPart among)]
          rfl
        · obtain ⟨flagged, provides⟩ := minds.lifeCycle index part isPart among
          exact runProcessor_of_process (show predefined.processor? _ = some Control.process from rfl)
            (Control.process_of_grants provides (flagged.flagLifeCycle_eq _))
  refine read_bind rfl (read_bind rfl ?_)
  cases dueComponents .onSubComponent context (context.definition id) with
  | nil => rfl
  | cons first rest =>
      exact (bind_of_ok (foldlM_of_stays fun index _ => stays index)).trans
        (Loading.replace_of_same rfl)

end AnnotationRegistry

end Adl
