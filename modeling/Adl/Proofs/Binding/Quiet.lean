import Adl.Proofs.Annotation.Singletons
import Adl.Proofs.Loading.Refusal

namespace Adl

open Step Context

/-! Which steps record errors about bindings. Of the stages only those for the bindings do so, and
those that load other definitions. -/

/-- Errors about one binding that is at fault. -/
def DiagnosticKind.isBinding : DiagnosticKind → Bool
  | .invalidBinding | .bindingCardinality | .mandatoryToOptional | .incompatibleSignature => true
  | _ => false

namespace Context

/-- The errors about bindings that were recorded. -/
def bindingErrors (context : Context) : List Diagnostic :=
  context.log.errors.filter (·.kind.isBinding)

theorem bindingErrors_congr {before after : Context} (log : after.log = before.log) :
    after.bindingErrors = before.bindingErrors := by
  rw [bindingErrors, log, bindingErrors]

/-- Steps that record no error about a binding, and do not fail for an unbound interface. -/
def quiet : Discipline Context where
  Valid _ := True
  Leads before after := after.bindingErrors = before.bindingErrors
  Fails error := error.isFatalOf .unboundInterface = false
  refl _ := rfl
  trans first second := second.trans first

end Context

variable {α : Type} {context : Context} {id : DefinitionId} {definition : Definition}
  {phase : Phase}

namespace Loading

theorem agree_record_quiet {diagnostic : Diagnostic} (other : diagnostic.kind.isBinding = false) :
    Agree quiet context (record diagnostic) (record diagnostic) fun _ _ => True := by
  have run : record diagnostic context =
      ((DiagnosticLog.record diagnostic context.log).1,
        { context with log := (DiagnosticLog.record diagnostic context.log).2 }) := rfl
  have ends : ∃ result log, DiagnosticLog.record diagnostic context.log = (result, log) ∧
      log.errors.filter (·.kind.isBinding) = context.bindingErrors ∧
      (result = .ok () ∨ result = .error .aborted) := by
    unfold DiagnosticLog.record
    split
    · exact ⟨_, _, rfl, rfl, .inl rfl⟩
    · split
      · exact ⟨_, _, rfl, rfl, .inl rfl⟩
      · have same : (context.log.errors ++ [diagnostic]).filter (·.kind.isBinding) =
            context.bindingErrors := by
          rw [List.filter_append, List.filter_cons_of_neg (by simp [other]), List.filter_nil,
            List.append_nil, bindingErrors]
        cases policy : context.log.policy with
        | collect => exact ⟨_, _, rfl, same, .inl rfl⟩
        | failFast => exact ⟨_, _, rfl, same, .inr rfl⟩
  obtain ⟨result, log, recorded, same, rfl | rfl⟩ := ends <;> rw [recorded] at run
  · exact .ends run run trivial same trivial
  · exact .ends run run trivial same rfl

theorem agree_recordError_quiet {kind : DiagnosticKind} (other : kind.isBinding = false) (span : Span)
    (message : String) :
    Agree quiet context (recordError kind span message) (recordError kind span message)
      fun _ _ => True :=
  agree_record_quiet other

theorem agree_recordAll_quiet {diagnostics : List Diagnostic}
    (others : ∀ diagnostic ∈ diagnostics, diagnostic.kind.isBinding = false) :
    Agree quiet context (recordAll diagnostics) (recordAll diagnostics) fun _ _ => True :=
  .forM (fun _ => True) trivial trivial fun diagnostic member _ _ _ =>
    agree_record_quiet (others diagnostic member)

theorem agree_infer_quiet (definition parameter : String) (type : ParameterType) :
    Agree quiet context (infer definition parameter type) (infer definition parameter type)
      fun _ _ => True := by
  refine .run rfl trivial ?_ trivial
  change (context.infer definition parameter type).bindingErrors = context.bindingErrors
  unfold Context.infer
  split <;> rfl

/-- What is stored does not matter. -/
theorem agree_replace_quiet {step : Loading Definition}
    (agree : Agree quiet context step step fun _ _ => True) :
    Agree quiet context (step >>= Loading.replace id) (step >>= Loading.replace id)
      fun _ _ => True :=
  agree.bind fun _ _ _ _ _ => .run rfl trivial rfl trivial

theorem agree_revise_quiet {revision : Revising Definition Unit}
    (agree : Agree (quiet.drafting fun _ _ => True) (context, context.definition id) revision revision
      fun _ _ => True) :
    Agree quiet context (Loading.revise id revision) (Loading.revise id revision) fun _ _ => True := by
  have leads := agree.leads
  have ended := agree.ended
  rcases outcome : revision (context, context.definition id) with ⟨result, reached, draft⟩
  rw [outcome] at leads ended
  have run : Loading.revise id revision context = (result, reached.replace id draft) := by
    simp only [Loading.revise, outcome]
  refine .ends run run trivial leads ?_
  cases result with
  | ok value => trivial
  | error error => exact ended

end Loading

/-! ## Annotations -/

namespace Singleton

theorem kind_of_mem_duplicates {firstUses : Table String} {parts : List (Component × DefinitionId)}
    {diagnostic : Diagnostic} (member : diagnostic ∈ duplicates context firstUses parts) :
    diagnostic.kind = .invalidSingleton := by
  induction parts generalizing firstUses with
  | nil => exact nomatch member
  | cons part rest induction =>
      unfold duplicates at member
      dsimp only at member
      split at member
      · exact induction member
      · split at member
        · rcases List.mem_cons.mp member with rfl | member
          · rfl
          · exact induction member
        · exact induction member

theorem agree_process_quiet (built : Annotation) (path : NodePath) :
    Agree quiet context (process built path definition phase) (process built path definition phase)
      fun _ _ => True := by
  have settles : Agree quiet context (settle definition) (settle definition) fun _ _ => True := by
    refine .read rfl (.bind (Loading.agree_recordAll_quiet fun diagnostic member => ?_) ?_)
    · rw [kind_of_mem_duplicates member]
      rfl
    · intro _ _ _ _ _
      split <;> exact .pure trivial trivial
  have spreads : ∀ announced, Agree quiet context (spread definition path announced)
      (spread definition path announced) fun _ _ => True := by
    intro announced
    unfold spread
    split
    · exact .pure trivial trivial
    · cases announced with
      | true =>
          exact .through (fun _ _ => True) (.run rfl trivial rfl trivial) fun _ _ _ _ _ =>
            .pure trivial trivial
      | false => exact .pure trivial trivial
  unfold process
  split
  · exact settles
  · exact settles
  · exact spreads true
  · exact spreads false
  · exact .pure trivial trivial
  · exact .pure trivial trivial

end Singleton

theorem Control.agree_process_quiet (built : Annotation) (path : NodePath) :
    Agree quiet context (process built path definition phase) (process built path definition phase)
      fun _ _ => True := by
  have extending : ∀ result : Except MergeConflict Definition,
      Agree quiet context (extended result) (extended result) fun _ _ => True := by
    intro result
    cases result with
    | ok changed => exact .pure trivial trivial
    | error conflict => exact .fail trivial rfl
  have rejecting : ∀ reason : String,
      Agree quiet context (reject definition built reason) (reject definition built reason)
        fun _ _ => True :=
    fun _ => .bind (Loading.agree_recordError_quiet rfl _ _) fun _ _ _ _ _ => .pure trivial trivial
  unfold process
  split
  · exact extending _
  · split
    · exact rejecting _
    · exact extending _
  · split
    · exact rejecting _
    · exact extending _
  · split
    · exact extending _
    · exact rejecting _
  · exact extending _
  all_goals exact .pure trivial trivial

namespace AnnotationRegistry

theorem agree_runProcessor_quiet (path : NodePath) (built : Annotation) (definition : Definition)
    (context : Context) :
    Agree quiet context (predefined.runProcessor phase path definition built)
      (predefined.runProcessor phase path definition built) fun _ _ => True := by
  unfold runProcessor
  cases found : predefined.processor? built.kind with
  | none => exact .fail trivial rfl
  | some processor =>
      refine .through (fun _ _ => True) ?_ fun _ _ _ _ _ => .pure trivial trivial
      obtain ⟨descriptor, known, found⟩ := Option.bind_eq_some_iff.mp found
      have member := mem_predefinedKinds known
      simp only [predefinedKinds, List.mem_cons, List.not_mem_nil, or_false] at member
      rcases member with rfl | rfl | rfl | rfl | rfl | rfl | rfl | rfl <;> cases found
      · exact Singleton.agree_process_quiet built path
      · exact Control.agree_process_quiet built path
      · exact Control.agree_process_quiet built path
      · exact Control.agree_process_quiet built path
      · exact Control.agree_process_quiet built path
      · exact Control.agree_process_quiet built path
      · exact .pure trivial trivial

theorem agree_runProcessors_quiet (path : NodePath) (built : List Annotation) (definition : Definition)
    (context : Context) :
    Agree quiet context (built.foldlM (predefined.runProcessor phase path) definition)
      (built.foldlM (predefined.runProcessor phase path) definition) fun _ _ => True :=
  .foldlM (fun _ _ => True) trivial trivial fun item _ definition context _ _ =>
    agree_runProcessor_quiet path item definition context

theorem agree_processDefinition_quiet (definition : Definition) :
    Agree quiet context (predefined.processDefinition phase definition)
      (predefined.processDefinition phase definition) fun _ _ => True :=
  .foldlM (fun _ _ => True) trivial trivial fun path _ definition context _ _ =>
    agree_runProcessors_quiet path _ definition context

theorem agree_processSubComponents_quiet (definition : Definition) (indices : List Nat) :
    Agree quiet context (predefined.processSubComponents phase definition indices)
      (predefined.processSubComponents phase definition indices) fun _ _ => True := by
  refine .foldlM (fun _ _ => True) trivial trivial fun index _ definition context _ _ => ?_
  unfold processSubComponent
  split
  · exact .pure trivial trivial
  · exact .read rfl (agree_runProcessors_quiet _ _ definition context)

end AnnotationRegistry

/-! ## Instances -/

namespace InstanceRequest

variable {request : InstanceRequest} {name : String}

theorem agree_exposeParameters_quiet (definition : Definition) :
    Agree quiet context (request.exposeParameters name definition)
      (request.exposeParameters name definition) fun _ _ => True := by
  refine .read rfl (.foldlM (fun _ _ => True) trivial trivial ?_)
  rintro placeholder - draft reached - -
  unfold exposeComponent
  split
  · exact .pure trivial trivial
  · split
    · refine .read rfl (.foldlM (fun _ _ => True) trivial trivial ?_)
      rintro parameter - draft reached - -
      refine .read rfl ?_
      split
      · exact .through (fun _ _ => True) (Loading.agree_infer_quiet _ _ _) fun _ _ _ _ _ =>
          .pure trivial trivial
      · exact .pure trivial trivial
    · exact .pure trivial trivial

/-- An instance is made without a report about bindings. -/
theorem agree_build_quiet :
    Agree quiet context (request.build .predefined layers name)
      (request.build .predefined layers name) fun _ _ => True := by
  refine .read rfl (.foldlM (fun _ _ => True) trivial trivial ?_)
  rintro layer - made reached - -
  cases layer with
  | parameters => exact agree_exposeParameters_quiet made
  | annotations =>
      exact .read rfl (.bind (AnnotationRegistry.agree_processSubComponents_quiet _ _) fun told _ _ _ _ =>
        AnnotationRegistry.agree_processDefinition_quiet told)

end InstanceRequest

/-! ## Stages -/

theorem interfaceProblems_quiet {seen : List String} {interfaces : List Interface}
    {diagnostic : Diagnostic} (member : diagnostic ∈ interfaceProblems seen interfaces) :
    diagnostic.kind.isBinding = false := by
  induction interfaces generalizing seen with
  | nil => exact absurd member List.not_mem_nil
  | cons interface rest induction =>
      unfold interfaceProblems at member
      rcases List.mem_append.mp member with own | others
      · rcases List.mem_append.mp own with repeated | unsized
        · split at repeated
          · rw [List.mem_singleton.mp repeated]
            rfl
          · exact absurd repeated List.not_mem_nil
        · split at unsized
          · rw [List.mem_singleton.mp unsized]
            rfl
          · exact absurd unsized List.not_mem_nil
      · exact induction others

theorem Diagnostic.kind_foldl_withLabel {β : Type} (others : List β) (span : β → Span)
    (message : β → String) (diagnostic : Diagnostic) :
    (others.foldl (fun diagnostic other => diagnostic.withLabel (span other) (message other))
      diagnostic).kind = diagnostic.kind := by
  induction others generalizing diagnostic with
  | nil => rfl
  | cons other rest induction => exact induction _

theorem Definition.kind_membraneProblem {diagnostic : Diagnostic}
    (found : definition.membraneProblem? = some diagnostic) :
    diagnostic.kind = .invalidController ∨ diagnostic.kind = .unimplementedInterface := by
  rcases Option.or_eq_some_iff.mp found with unknown | ⟨-, found⟩
  · obtain ⟨controller, -, reported⟩ := List.exists_of_findSome?_eq_some unknown
    obtain ⟨interface, -, rfl⟩ := Option.map_eq_some_iff.mp reported
    exact .inl rfl
  · rcases Option.or_eq_some_iff.mp found with unused | ⟨-, unimplemented⟩
    · unfold unusedInternal? at unused
      dsimp only at unused
      split at unused
      · exact nomatch unused
      · cases unused
        exact .inl (Diagnostic.kind_foldl_withLabel _ _ _ _)
    · unfold unimplemented? at unimplemented
      split at unimplemented
      · exact nomatch unimplemented
      · cases unimplemented
        exact .inr rfl

namespace Attribute

theorem agree_settle_quiet (owner : Definition) (declared : Attribute) :
    Agree (quiet.drafting fun _ _ => True) (context, declared) (settle owner) (settle owner)
      fun _ _ => True := by
  have lifted : ∀ {step : Loading Unit}, Agree quiet context step step (fun _ _ => True) →
      Agree (quiet.drafting fun _ _ => True) (context, declared)
        (liftM step : Revising Attribute Unit) (liftM step) fun _ _ => True :=
    fun agree => (Drafting.agree_lift (Discipline.lasting_const _ fun _ => True) trivial trivial
      agree).forget
  have numbers : ∀ type value, Agree quiet context (checkNumber declared type value)
      (checkNumber declared type value) fun _ _ => True := by
    intro type value
    unfold checkNumber
    split
    · exact Loading.agree_recordError_quiet rfl _ _
    · split
      · exact .run rfl trivial rfl trivial
      · exact .pure trivial trivial
  have texts : ∀ type value, Agree quiet context (checkText declared type value)
      (checkText declared type value) fun _ _ => True := by
    intro type value
    unfold checkText
    split
    · exact Loading.agree_recordError_quiet rfl _ _
    · exact .pure trivial trivial
  have references : ∀ type parameter, Agree quiet context
      (checkReference owner declared type parameter) (checkReference owner declared type parameter)
      fun _ _ => True := by
    intro type parameter
    unfold checkReference
    split
    · exact Loading.agree_recordError_quiet rfl _ _
    · refine .bind (Loading.agree_infer_quiet _ _ _) fun inferred _ _ _ _ => ?_
      cases inferred with
      | none => exact .pure trivial trivial
      | some inferred =>
          dsimp only
          split
          · exact Loading.agree_recordError_quiet rfl _ _
          · exact .pure trivial trivial
  refine .read rfl ?_
  dsimp only
  split
  · exact Drafting.agree_modifyDraft trivial trivial trivial
  · exact lifted (numbers _ _)
  · exact lifted (references _ _)
  · exact lifted (texts _ _)

end Attribute

namespace Stage

variable {frontEnd : FrontEnd} {load : String → Loading DefinitionId} {name : String}

/-- Stages that look at no bindings and load nothing. -/
def quiet : List Stage :=
  [ .process .afterExtends, .subComponentAnnotations, .interfaces, .delegation, .membrane,
    .parameters, .attributes, .process .afterChecking ]

/-- They record no errors about bindings. -/
theorem agree_run_quiet (isPredefined : frontEnd.registry = .predefined) {stage : Stage}
    (isQuiet : stage ∈ quiet) :
    Agree Context.quiet context (run frontEnd load name id stage) (run frontEnd load name id stage)
      fun _ _ => True := by
  have processes : ∀ phase, Agree Context.quiet context
      (frontEnd.registry.processStored phase id) (frontEnd.registry.processStored phase id)
      fun _ _ => True := by
    intro phase
    rw [isPredefined]
    refine .read rfl ?_
    split
    · exact Loading.agree_replace_quiet (AnnotationRegistry.agree_processDefinition_quiet _)
    · exact .pure trivial trivial
  simp only [quiet, List.mem_cons, List.not_mem_nil, or_false] at isQuiet
  rcases isQuiet with rfl | rfl | rfl | rfl | rfl | rfl | rfl | rfl
  · exact processes _
  · unfold run
    rw [isPredefined]
    refine .read rfl (.read rfl ?_)
    split
    · exact .pure trivial trivial
    · exact Loading.agree_replace_quiet (AnnotationRegistry.agree_processSubComponents_quiet _ _)
  · exact .read rfl (Loading.agree_recordAll_quiet fun _ member => interfaceProblems_quiet member)
  · refine .read rfl ?_
    split
    · split
      · exact .pure trivial trivial
      · refine Loading.agree_replace_quiet ?_
        cases Definition.withDelegator _ _ with
        | ok changed => exact .pure trivial trivial
        | error conflict => exact .fail trivial rfl
    · exact .pure trivial trivial
  · cases found : (context.definition id).membraneProblem? with
    | none => exact .run (completeMembrane_of_none found) trivial rfl trivial
    | some problem =>
        refine .ends (completeMembrane_of_problem found) (completeMembrane_of_problem found) trivial
          rfl ?_
        change (problem.kind == DiagnosticKind.unboundInterface) = false
        rcases Definition.kind_membraneProblem found with kind | kind <;> rw [kind] <;> rfl
  · exact .read rfl (.forM (fun _ => True) trivial trivial fun _ _ _ _ _ =>
      Loading.agree_recordError_quiet rfl _ _)
  · refine .read rfl ?_
    split
    · have settled := Drafting.agree_each
          (fun _ => Discipline.lasting_const Context.quiet fun _ => True)
          (fun _ _ => Discipline.lasting_const Context.quiet fun _ => True)
          (show Context.quiet.Valid context from trivial)
          (fun _ (_ : _ ∈ (context.definition id).attributes) => trivial)
          fun _ _ declared _ _ _ => Attribute.agree_settle_quiet (context.definition id) declared
      exact Loading.agree_revise_quiet (.through (fun _ _ => True)
        (Drafting.agree_onPart settled fun _ _ _ _ _ => trivial).forget
        fun _ _ valid _ _ => .pure valid trivial)
    · exact .pure trivial trivial
  · exact processes _

end Stage

end Adl
