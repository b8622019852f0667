import Adl.Annotation.Checking
import Adl.Annotation.Processing
import Adl.Proofs.Loading.Steps

namespace Adl

open Step

/-! Annotations edit the definition that bears them, and touch neither its name nor what its
sub-components designate. Processors may report, and nothing else. -/

/-! ## Harmless processors -/

/-- A processor that only reports, and edits the definition. -/
def Processor.IsHarmless (processor : Processor) : Prop :=
  ∀ built path definition phase context,
    Agree Context.reporting context (processor built path definition phase)
      (processor built path definition phase)
      fun changed _ => definition.Edits (changed.getD definition)

namespace AnnotationRegistry

/-- All processors are harmless, and annotations are built as by the predefined kinds. -/
structure IsHarmless (registry : AnnotationRegistry) : Prop where
  processors : ∀ kind processor, registry.processor? kind = some processor → processor.IsHarmless
  builds : registry.build = predefined.build

end AnnotationRegistry

namespace Singleton

theorem agree_settle (definition : Definition) (context : Context) :
    Agree Context.reporting context (settle definition) (settle definition)
      fun changed _ => definition.Edits (changed.getD definition) := by
  refine .read rfl (.bind (Loading.agree_recordAll _) ?_)
  intro _ reached _ _ _
  split
  · exact .pure trivial (.refl definition)
  · exact .pure trivial (.of_edit (.described definition _ (fun _ holds => holds) rfl
      ⟨rfl, List.Subset.refl _⟩))

theorem agree_spread (definition : Definition) (node : NodePath) (announced : Bool)
    (context : Context) :
    Agree Context.reporting context (spread definition node announced)
      (spread definition node announced)
      fun changed _ => definition.Edits (changed.getD definition) := by
  unfold spread
  split
  · exact .pure trivial (.refl definition)
  · rename_i isNew
    have attaches := Definition.Edits.of_edit (.attached definition (by simpa using isNew))
    cases announced with
    | true =>
        refine .bind (Loading.agree_warn _ _ _) ?_
        intro _ reached _ _ _
        exact .pure trivial attaches
    | false => exact .pure trivial attaches

theorem isHarmless_process : Processor.IsHarmless process := by
  intro built path definition phase context
  cases phase with
  | afterChecking => exact agree_settle definition context
  | afterTemplateInstantiate => exact agree_settle definition context
  | onSubComponent => exact agree_spread definition path true context
  | onTemplateSubComponent => exact agree_spread definition path false context
  | afterParsing => exact .pure trivial (.refl definition)
  | afterExtends => exact .pure trivial (.refl definition)

end Singleton

namespace Control

variable {definition : Definition} {context : Context}

theorem agree_reject (definition : Definition) (built : Annotation) (reason : String)
    (context : Context) :
    Agree Context.reporting context (reject definition built reason)
      (reject definition built reason)
      fun changed _ => definition.Edits (changed.getD definition) := by
  refine .bind (Loading.agree_recordError _ _ _) ?_
  intro _ reached _ _ _
  exact .pure trivial (.refl definition)

theorem agree_extended {result : Except MergeConflict Definition}
    (edits : ∀ changed, result = .ok changed → definition.Edits changed) :
    Agree Context.reporting context (extended result) (extended result)
      fun changed _ => definition.Edits (changed.getD definition) := by
  cases result with
  | ok changed => exact .pure trivial (edits changed rfl)
  | error conflict => exact .fail trivial (LoadError.isGrave_internal _)

theorem flagLifeCycle_edits (definition : Definition) (node : NodePath) (phase : Phase) :
    definition.Edits (flagLifeCycle definition node phase) := by
  unfold flagLifeCycle
  split
  · exact .of_edit (.flagged definition _)
  · exact .refl definition

theorem isHarmless_process : Processor.IsHarmless process := by
  intro built path definition phase context
  unfold process
  split
  · exact agree_extended fun changed succeeds =>
      (flagLifeCycle_edits definition path phase).trans
        (Definition.addControl_edits (by decide) (by decide) succeeds)
  · split
    · exact agree_reject definition built _ context
    · exact agree_extended fun changed => Definition.addControl_edits (by decide) (by decide)
  · split
    · exact agree_reject definition built _ context
    · exact agree_extended fun changed => Definition.addControl_edits (by decide) (by decide)
  · split
    · exact agree_extended fun changed => Definition.addControl_edits (by decide) (by decide)
    · exact agree_reject definition built _ context
  · exact agree_extended fun changed => Definition.addCloning_edits
  all_goals exact .pure trivial (.refl definition)

end Control

namespace AnnotationRegistry

variable {registry : AnnotationRegistry}

/-- A kind that is known was registered. -/
theorem mem_of_descriptor? {kinds : List AnnotationDescriptor} {typeName : String}
    {descriptor : AnnotationDescriptor}
    (found : (kinds.foldl AnnotationRegistry.register registry).descriptor? typeName =
      some descriptor) : descriptor ∈ kinds ∨ registry.descriptor? typeName = some descriptor := by
  induction kinds generalizing registry with
  | nil => exact .inr found
  | cons first rest induction =>
      rcases induction found with member | known
      · exact .inl (List.mem_cons_of_mem _ member)
      · simp only [descriptor?, AnnotationRegistry.register, Table.find?_insert] at known
        split at known
        · cases known
          exact .inl List.mem_cons_self
        · exact .inr known

theorem mem_predefinedKinds {typeName : String} {descriptor : AnnotationDescriptor}
    (found : predefined.descriptor? typeName = some descriptor) : descriptor ∈ predefinedKinds :=
  (mem_of_descriptor? found).resolve_right nofun

theorem isHarmless_predefined : predefined.IsHarmless where
  processors kind processor found := by
    obtain ⟨descriptor, known, found⟩ := Option.bind_eq_some_iff.mp found
    have member := mem_predefinedKinds known
    simp only [predefinedKinds, List.mem_cons, List.not_mem_nil, or_false] at member
    rcases member with rfl | rfl | rfl | rfl | rfl | rfl | rfl | rfl <;> cases found
    · exact Singleton.isHarmless_process
    · exact Control.isHarmless_process
    · exact Control.isHarmless_process
    · exact Control.isHarmless_process
    · exact Control.isHarmless_process
    · exact Control.isHarmless_process
    · exact fun _ _ definition _ _ => .pure trivial (.refl definition)
  builds := rfl

/-! ## Running processors -/

section Running

variable {definition original : Definition} {context : Context} {phase : Phase}

theorem runProcessor_eq_ok_iff {before after : Definition} {path : NodePath} {built : Annotation}
    {reached : Context} :
    registry.runProcessor phase path before built context = (.ok after, reached) ↔
      ∃ processor replacement, registry.processor? built.kind = some processor ∧
        processor built path before phase context = (.ok replacement, reached) ∧
        replacement.getD before = after := by
  unfold runProcessor
  cases registry.processor? built.kind with
  | none => exact ⟨nofun, fun ⟨_, _, found, _⟩ => nomatch found⟩
  | some processor =>
      constructor
      · intro ran
        obtain ⟨replacement, middle, processed, given⟩ := ok_of_bind ran
        cases given
        exact ⟨processor, replacement, rfl, processed, rfl⟩
      · rintro ⟨_, replacement, found, processed, rfl⟩
        cases found
        exact bind_of_ok processed

theorem agree_runProcessor (harmless : registry.IsHarmless) (path : NodePath)
    (built : Annotation) (edits : original.Edits definition) :
    Agree Context.reporting context (registry.runProcessor phase path definition built)
      (registry.runProcessor phase path definition built)
      fun changed _ => original.Edits changed := by
  unfold runProcessor
  split
  · exact .fail trivial (LoadError.isGrave_internal _)
  · rename_i processor found
    refine .bind (harmless.processors _ processor found built path definition phase context) ?_
    intro changed reached _ _ further
    exact .pure trivial (edits.trans further)

theorem agree_runProcessors (harmless : registry.IsHarmless) (path : NodePath)
    (due : List Annotation) (edits : original.Edits definition) :
    Agree Context.reporting context (due.foldlM (registry.runProcessor phase path) definition)
      (due.foldlM (registry.runProcessor phase path) definition)
      fun changed _ => original.Edits changed :=
  .foldlM (fun (changed : Definition) _ => original.Edits changed) trivial edits
    fun built _ _ _ _ edits => agree_runProcessor harmless path built edits

theorem agree_processDefinition (harmless : registry.IsHarmless)
    (edits : original.Edits definition) :
    Agree Context.reporting context (registry.processDefinition phase definition)
      (registry.processDefinition phase definition)
      fun changed _ => original.Edits changed :=
  .foldlM (fun (changed : Definition) _ => original.Edits changed) trivial edits
    fun path _ _ _ _ edits => agree_runProcessors harmless path _ edits

theorem agree_processSubComponents (harmless : registry.IsHarmless) (indices : List Nat)
    (edits : original.Edits definition) :
    Agree Context.reporting context (registry.processSubComponents phase definition indices)
      (registry.processSubComponents phase definition indices)
      fun changed _ => original.Edits changed := by
  refine .foldlM (fun (changed : Definition) _ => original.Edits changed) trivial edits ?_
  intro index _ changed reached _ edits
  unfold processSubComponent
  split
  · exact .pure trivial edits
  · exact .read rfl (agree_runProcessors harmless _ _ edits)

end Running

/-! ## Building annotations -/

theorem length_accepted_le (target : Target) (taken : List Annotation)
    (nodes : List AnnotationNode) :
    (registry.accepted target taken nodes).length ≤ taken.length + nodes.length := by
  induction nodes generalizing taken with
  | nil => exact Nat.le_refl _
  | cons node rest induction =>
      rw [List.length_cons]
      unfold accepted
      split
      · exact Nat.le_trans (induction taken) (by omega)
      · split
        · exact Nat.le_trans (induction _) (by rw [List.length_append, List.length_singleton]; omega)
        · exact Nat.le_trans (induction taken) (by omega)

/-- The check accepts what it can, and all nodes if it reports nothing. -/
theorem agree_checkNodes (harmless : registry.IsHarmless) (target : Target)
    (taken : List Annotation) (nodes : List AnnotationNode) (context : Context) :
    Agree Context.reporting context (registry.checkNodes target taken nodes)
      (registry.checkNodes target taken nodes)
      fun typed reached => typed = predefined.accepted target taken nodes ∧
        (reached.log.errors = [] → typed.length = taken.length + nodes.length) := by
  induction nodes generalizing taken context with
  | nil => exact .pure trivial ⟨rfl, fun _ => rfl⟩
  | cons node rest induction =>
      have refused : ∀ {kind : DiagnosticKind} {message : String},
          Agree Context.reporting context
            (do
              Loading.recordError kind node.span message
              registry.checkNodes target taken rest)
            (do
              Loading.recordError kind node.span message
              registry.checkNodes target taken rest)
            fun typed reached => typed = predefined.accepted target taken rest ∧
              (reached.log.errors = [] → typed.length = taken.length + (node :: rest).length) :=
        .bind (Loading.agree_recordError _ _ _) fun _ reached _ _ recorded =>
          (induction taken reached).mono fun _ _ _ reports holds =>
            ⟨holds.1, fun silent => absurd (reports.evolves.errors_eq_nil silent) recorded⟩
      unfold checkNodes accepted
      rw [harmless.builds]
      cases builds : predefined.build node with
      | error error => exact refused
      | ok built =>
          dsimp only
          by_cases applies : built.targets.contains target = true
          · by_cases taken' : taken.any (·.kind == built.kind) = true
            · simp only [applies, taken', Bool.not_true, Bool.and_false, if_true, if_false,
                Bool.false_eq_true]
              exact refused
            · simp only [applies, taken', Bool.not_true, Bool.not_false, Bool.and_true, if_true,
                if_false, Bool.false_eq_true]
              refine (induction _ context).mono fun _ _ _ _ holds => ⟨holds.1, fun silent => ?_⟩
              rw [holds.2 silent, List.length_append, List.length_singleton, List.length_cons,
                Nat.add_assoc, Nat.add_comm 1]
          · simp only [applies, Bool.not_false, Bool.false_and, if_true, if_false,
              Bool.false_eq_true]
            exact refused

theorem agree_checkElement (harmless : registry.IsHarmless) (original : Definition)
    (path : NodePath) (context : Context) {draft : Definition} (edits : original.Edits draft) :
    Agree (Context.reporting.drafting fun _ draft => original.Edits draft) (context, draft)
      (registry.checkElement path) (registry.checkElement path)
      fun _ pair => pair.2 = draft.modifyAnnotationsAt path (Annotations.rebuilt path.target) ∧
        (pair.1.log.errors = [] → ∀ annotations, draft.annotationsAt? path = some annotations →
          (annotations.rebuilt path.target).typed.length = annotations.nodes.length) := by
  refine .read rfl ?_
  split
  · rename_i absent
    refine .pure ⟨trivial, edits⟩ ⟨?_, fun _ _ found => nomatch absent.symm.trans found⟩
    exact (Definition.modifyAnnotationsAt_of_none absent).symm
  · rename_i annotations found
    refine Drafting.agree_lift_bind (fun _ _ _ _ _ _ => id) trivial edits
      (agree_checkNodes harmless _ _ _ context) ?_
    rintro typed reached _ _ edits ⟨rfl, whole⟩
    have same : (draft.modifyAnnotationsAt path fun annotations' => { annotations' with
        typed := predefined.accepted path.target [] annotations.nodes }) =
        draft.modifyAnnotationsAt path (Annotations.rebuilt path.target) :=
      Definition.modifyAnnotationsAt_congr fun other isOther => by
        cases found.symm.trans isOther
        rfl
    refine Drafting.agree_modifyDraft trivial
      (edits.trans (same ▸ .of_edit (.annotated draft path))) ⟨same, fun silent other isOther => ?_⟩
    cases found.symm.trans isOther
    exact (whole silent).trans (Nat.zero_add _)

/-- Of the elements that are checked in turn each is built anew. -/
theorem agree_checkElements (harmless : registry.IsHarmless) (original : Definition)
    (paths : List NodePath) (context : Context) {draft : Definition}
    (edits : original.Edits draft) :
    Agree (Context.reporting.drafting fun _ draft => original.Edits draft) (context, draft)
      (paths.forM registry.checkElement) (paths.forM registry.checkElement)
      fun _ pair => pair.2 = paths.foldl (fun changed path =>
          changed.modifyAnnotationsAt path (Annotations.rebuilt path.target)) draft ∧
        (pair.1.log.errors = [] → ∀ path ∈ paths, ∀ annotations,
          draft.annotationsAt? path = some annotations →
            (annotations.rebuilt path.target).typed.length = annotations.nodes.length) := by
  induction paths generalizing context draft with
  | nil => exact .pure ⟨trivial, edits⟩ ⟨rfl, nofun⟩
  | cons path rest induction =>
      rw [List.forM_eq_forM, List.forM_cons]
      refine .bind (agree_checkElement harmless original path context edits) ?_
      rintro _ ⟨reached, changed⟩ valid _ ⟨rfl, whole⟩
      refine (induction reached valid.2).mono ?_
      rintro _ ⟨last, _⟩ _ leads ⟨rfl, others⟩
      refine ⟨rfl, fun silent => List.forall_mem_cons.mpr
        ⟨whole (Context.Reports.evolves leads |>.errors_eq_nil silent), ?_⟩⟩
      intro other member annotations found
      have later := others silent other member
      rw [Definition.annotationsAt?_modifyAnnotationsAt, found] at later
      by_cases same : path = other
      · cases same
        exact later (annotations.rebuilt path.target) (if_pos rfl)
      · exact later annotations (if_neg same)

theorem agree_checkAll (harmless : registry.IsHarmless) (definition : Definition)
    (context : Context) :
    Agree (Context.reporting.drafting fun _ draft => definition.Edits draft) (context, definition)
      (definition.nodePaths.forM registry.checkElement)
      (definition.nodePaths.forM registry.checkElement)
      fun _ pair => pair.2 = definition.mapAnnotations Annotations.rebuilt ∧
        (pair.1.log.errors = [] → definition.Everywhere fun target annotations =>
          (annotations.rebuilt target).typed.length = annotations.nodes.length) := by
  refine (agree_checkElements harmless definition _ context (.refl _)).mono ?_
  rintro _ ⟨reached, _⟩ _ _ ⟨rfl, whole⟩
  exact ⟨definition.foldl_modifyAnnotationsAt Annotations.rebuilt,
    fun silent => Definition.everywhere_iff.mpr (whole silent)⟩

/-- Where nothing is annotated there are no nodes. -/
theorem everywhere_of_not_annotated {definition : Definition}
    (plain : isAnnotated definition = false) :
    definition.Everywhere fun _ annotations => annotations.nodes = [] := by
  refine Definition.everywhere_iff.mpr fun path member annotations found => ?_
  have empty := List.any_eq_false.mp plain path member
  rw [found, Option.any_some, Bool.not_eq_true, Bool.not_eq_false'] at empty
  exact List.isEmpty_iff.mp empty

end AnnotationRegistry

end Adl
