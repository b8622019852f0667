import Adl.Loading.Pipeline
import Adl.Proofs.Loading.Composition

namespace Adl

/-! Steps that no fatal diagnostic ends. What a load that is asked for inside a step ends with is
recorded or looked at, and the step goes on; so it is the own membrane and the own bindings of a
definition for which its load is refused. -/

variable {State Draft Part α β : Type}

/-- No fatal diagnostic ends the step. -/
def Step.Endures (step : Step State α) : Prop :=
  ∀ state diagnostic, (step state).1 ≠ .error (.fatal diagnostic)

open Step

namespace Step.Endures

variable {step : Step State α}

/-! ## Sequences -/

theorem of_runs (runs : ∀ state, ∃ value reached, step state = (.ok value, reached)) :
    step.Endures := by
  intro state diagnostic fails
  obtain ⟨value, reached, ends⟩ := runs state
  rw [ends] at fails
  cases fails

protected theorem pure (value : α) : (Pure.pure value : Step State α).Endures :=
  .of_runs fun _ => ⟨value, _, rfl⟩

protected theorem internal (error : InternalError) :
    (Step.fail (.internal error) : Step State α).Endures :=
  fun _ _ fails => nomatch fails

protected theorem aborted : (Step.fail .aborted : Step State α).Endures :=
  fun _ _ fails => nomatch fails

theorem bind {next : α → Step State β} (first : step.Endures) (rest : ∀ value, (next value).Endures) :
    (step >>= next).Endures := by
  intro state diagnostic fails
  rw [bind_apply] at fails
  rcases outcome : step state with ⟨error | value, reached⟩
  · rw [outcome] at fails
    cases fails
    exact first state diagnostic (congrArg Prod.fst outcome)
  · rw [outcome] at fails
    exact rest value reached diagnostic fails

theorem outcome (step : Step State α) : step.outcome.Endures :=
  .of_runs fun _ => ⟨_, _, rfl⟩

theorem forM {items : List β} {step : β → Step State PUnit} (each : ∀ item, (step item).Endures) :
    (items.forM step).Endures := by
  induction items with
  | nil => exact .pure _
  | cons item rest induction => exact .bind (each item) fun _ => induction

theorem foldlM {items : List β} {step : α → β → Step State α}
    (each : ∀ value item, (step value item).Endures) (first : α) :
    (items.foldlM step first).Endures := by
  induction items generalizing first with
  | nil => exact .pure first
  | cons item rest induction =>
      rw [List.foldlM_cons]
      exact .bind (each first item) induction

theorem ofExcept (result : Except MergeConflict α) :
    (Step.ofExcept result : Step State α).Endures := by
  cases result with
  | ok value => exact .pure value
  | error conflict => exact .internal _

/-! ## Drafts -/

theorem lift (endures : step.Endures) : (liftM step : Drafting State Draft α).Endures := by
  rintro ⟨state, draft⟩ diagnostic fails
  rw [Drafting.lift_apply] at fails
  exact endures state diagnostic fails

theorem draft : (Drafting.draft : Drafting State Draft Draft).Endures :=
  .of_runs fun _ => ⟨_, _, rfl⟩

theorem modifyDraft (change : Draft → Draft) :
    (Drafting.modifyDraft change : Drafting State Draft Unit).Endures :=
  .of_runs fun _ => ⟨_, _, rfl⟩

theorem onPart {get : Draft → Part} {set : Part → Draft → Draft} {step : Drafting State Part α}
    (endures : step.Endures) : (Drafting.onPart get set step).Endures :=
  fun state diagnostic fails => endures (state.1, get state.2) diagnostic fails

theorem each {visit : Nat → Drafting State Draft α} (visits : ∀ index, (visit index).Endures) :
    (Drafting.each visit).Endures := by
  have visited : ∀ (items : List Draft) (state : State) (index : Nat) (diagnostic : Diagnostic),
      (Drafting.eachFrom visit index items state).1 ≠ .error (.fatal diagnostic) := by
    intro items
    induction items with
    | nil => exact fun _ _ _ fails => nomatch fails
    | cons item rest induction =>
        intro state index diagnostic fails
        unfold Drafting.eachFrom at fails
        rcases here : visit index (state, item) with ⟨error | value, reached, changed⟩
        · rw [here] at fails
          cases fails
          exact visits index (state, item) diagnostic (congrArg Prod.fst here)
        · rw [here] at fails
          rcases others : Drafting.eachFrom visit (index + 1) rest reached with
            ⟨error | values, final, items⟩
          · simp only [others] at fails
            cases fails
            exact induction reached (index + 1) diagnostic (congrArg Prod.fst others)
          · simp only [others] at fails
            cases fails
  exact fun state diagnostic => visited state.2 state.1 0 diagnostic

end Step.Endures

/-! ## Compilations -/

namespace Loading

theorem endures_context : Loading.context.Endures :=
  .of_runs fun _ => ⟨_, _, rfl⟩

theorem endures_update (change : Context → Context) : (Loading.update change).Endures :=
  .of_runs fun _ => ⟨_, _, rfl⟩

theorem endures_definition (id : DefinitionId) : (Loading.definition id).Endures :=
  .of_runs fun _ => ⟨_, _, rfl⟩

theorem endures_infer (definition parameter : String) (type : ParameterType) :
    (Loading.infer definition parameter type).Endures :=
  .of_runs fun _ => ⟨_, _, rfl⟩

theorem endures_register (name : String) (definition : Definition) :
    (Loading.register name definition).Endures :=
  .of_runs fun _ => ⟨_, _, rfl⟩

/-- At most, what is recorded stops the compilation. -/
theorem endures_record (diagnostic : Diagnostic) : (Loading.record diagnostic).Endures := by
  intro context other fails
  change (DiagnosticLog.record diagnostic context.log).1 = _ at fails
  unfold DiagnosticLog.record at fails
  split at fails
  · cases fails
  · split at fails
    · cases fails
    · dsimp only at fails
      split at fails <;> cases fails

theorem endures_recordError (kind : DiagnosticKind) (span : Span) (message : String) :
    (Loading.recordError kind span message).Endures :=
  endures_record _

theorem endures_recordAll (diagnostics : List Diagnostic) : (Loading.recordAll diagnostics).Endures :=
  .forM endures_record

/-- What a load ends with is recorded where it was asked for. -/
theorem endures_orRecorded (step : Loading α) (span : Span) : (step.orRecorded span).Endures := by
  refine .bind (.outcome step) fun result => ?_
  cases result with
  | ok value => exact .pure _
  | error error =>
      cases error with
      | fatal diagnostic => exact .bind (endures_record _) fun _ => .pure _
      | aborted => exact .aborted
      | internal error => exact .internal _

theorem endures_revise (id : DefinitionId) {revision : Revising Definition Unit}
    (endures : revision.Endures) : (Loading.revise id revision).Endures :=
  fun context diagnostic fails => endures (context, context.definition id) diagnostic fails

end Loading

open Loading

/-! ## Annotations -/

/-- No fatal diagnostic ends a processor. -/
def AnnotationRegistry.Endures (registry : AnnotationRegistry) : Prop :=
  ∀ kind processor, registry.processor? kind = some processor →
    ∀ built node definition phase, (processor built node definition phase).Endures

theorem Singleton.endures_process (built : Annotation) (node : NodePath) (definition : Definition)
    (phase : Phase) : (process built node definition phase).Endures := by
  have spreads (announced : Bool) : (spread definition node announced).Endures := by
    unfold spread
    split
    · exact .pure _
    · split
      · exact .bind (endures_update _) fun _ => .pure _
      · exact .pure _
  have settles : (settle definition).Endures := by
    refine .bind endures_context fun context => .bind (endures_recordAll _) fun _ => ?_
    split <;> exact .pure _
  cases phase with
  | afterChecking | afterTemplateInstantiate => exact settles
  | onSubComponent | onTemplateSubComponent => exact spreads _
  | afterParsing | afterExtends => exact .pure _

theorem Control.endures_process (built : Annotation) (node : NodePath) (definition : Definition)
    (phase : Phase) : (process built node definition phase).Endures := by
  have rejects (reason : String) : (reject definition built reason).Endures :=
    .bind (endures_recordError _ _ _) fun _ => .pure _
  have extends' (result : Except MergeConflict Definition) : (extended result).Endures :=
    .bind (.ofExcept result) fun _ => .pure _
  unfold process
  split
  · exact extends' _
  · split
    · exact rejects _
    · exact extends' _
  · split
    · exact rejects _
    · exact extends' _
  · split
    · exact extends' _
    · exact rejects _
  · exact extends' _
  all_goals exact .pure _

namespace AnnotationRegistry

theorem endures_predefined : predefined.Endures := by
  intro kind processor found built node definition phase
  obtain ⟨descriptor, known, found⟩ := Option.bind_eq_some_iff.mp found
  have member := mem_predefinedKinds known
  simp only [predefinedKinds, List.mem_cons, List.not_mem_nil, or_false] at member
  rcases member with rfl | rfl | rfl | rfl | rfl | rfl | rfl | rfl <;> cases found
  · exact Singleton.endures_process built node definition phase
  · exact Control.endures_process built node definition phase
  · exact Control.endures_process built node definition phase
  · exact Control.endures_process built node definition phase
  · exact Control.endures_process built node definition phase
  · exact Control.endures_process built node definition phase
  · exact .pure _

variable {registry : AnnotationRegistry}

theorem endures_checkNodes (target : Target) (accepted : List Annotation)
    (nodes : List AnnotationNode) : (registry.checkNodes target accepted nodes).Endures := by
  induction nodes generalizing accepted with
  | nil => exact .pure _
  | cons node rest induction =>
      unfold checkNodes
      split
      · exact .bind (endures_recordError _ _ _) fun _ => induction _
      · split
        · exact .bind (endures_recordError _ _ _) fun _ => induction _
        · split
          · exact .bind (endures_recordError _ _ _) fun _ => induction _
          · exact induction _

theorem endures_checkDefinition (id : DefinitionId) : (registry.checkDefinition id).Endures := by
  refine .bind (endures_definition id) fun definition => ?_
  split
  · refine endures_revise id (.forM fun path => .bind .draft fun definition => ?_)
    split
    · exact .pure _
    · exact .bind (.lift (endures_checkNodes _ _ _)) fun _ => .modifyDraft _
  · exact .pure _

variable (endures : registry.Endures)
include endures

theorem endures_runProcessor (phase : Phase) (path : NodePath) (definition : Definition)
    (built : Annotation) : (registry.runProcessor phase path definition built).Endures := by
  unfold runProcessor
  split
  · exact .internal _
  · rename_i processor found
    exact .bind (endures _ processor found built path definition phase) fun _ => .pure _

theorem endures_processStored (phase : Phase) (id : DefinitionId) :
    (registry.processStored phase id).Endures := by
  refine .bind (endures_definition id) fun definition => ?_
  split
  · exact .bind (.foldlM (fun definition path => .foldlM (fun definition built =>
      endures_runProcessor endures phase path definition built) definition) definition)
        fun _ => endures_update _
  · exact .pure _

theorem endures_processStoredSubComponents (id : DefinitionId) :
    (registry.processStoredSubComponents id).Endures := by
  refine .bind (endures_definition id) fun definition => .bind endures_context fun context => ?_
  split
  · exact .pure _
  · refine .bind (.foldlM (fun definition index => ?_) definition) fun _ => endures_update _
    unfold processSubComponent
    split
    · exact .pure _
    · exact .bind (endures_definition _) fun _ => .foldlM (fun definition built =>
        endures_runProcessor endures _ (.component index) definition built) definition

end AnnotationRegistry

/-! ## References -/

variable {frontEnd : FrontEnd} {load : String → Loading DefinitionId}

theorem endures_substituteValues (load : String → Loading DefinitionId) (reference : Reference)
    (target : DefinitionId) (allowReferences : Bool) :
    (substituteValues load reference target allowReferences).Endures := by
  refine .bind (endures_definition target) fun definition => ?_
  split
  · exact .pure _
  · have continues (name : String) : (Loading.orRecorded (load name) reference.span >>=
        Substitution.ofLoaded).Endures := by
      refine .bind (endures_orRecorded _ _) fun found => ?_
      cases found <;> exact .pure _
    refine .bind endures_context fun context => ?_
    dsimp only
    split
    · exact .bind (endures_register _ _) fun _ => continues _
    · exact continues _

namespace Arguments

theorem endures_checkValues (target : Definition) (scope : Option Definition)
    (arguments : List Argument) : (checkValues target scope arguments).Endures := by
  have forwards (span : Span) (used : String) (expected : Option ParameterType) :
      (checkForwarded span scope used expected).Endures := by
    unfold checkForwarded
    split
    · exact .bind (endures_recordError _ _ _) fun _ => .pure _
    · split
      · exact .pure _
      · refine .bind (endures_infer _ _ _) fun previous => ?_
        split
        · exact .pure _
        · split
          · exact .pure _
          · exact .bind (endures_recordError _ _ _) fun _ => .pure _
  have checks (argument : Argument) : (checkValue target scope argument).Endures := by
    refine .bind endures_context fun context => ?_
    dsimp only
    split
    · exact forwards _ _ _
    · split
      · exact .pure _
      · split
        · exact .pure _
        · exact .bind (endures_recordError _ _ _) fun _ => .pure _
  induction arguments with
  | nil => exact .pure _
  | cons argument rest induction =>
      exact .bind (checks argument) fun _ => .bind induction fun _ => .pure _

theorem endures_check (target : Definition) (scope : Option Definition) :
    (check target scope).Endures := by
  have refuses (diagnostics : List Diagnostic) :
      (liftM (refuse diagnostics) : Revising Reference Bool).Endures :=
    .lift (.bind (endures_recordAll _) fun _ => .pure _)
  refine .bind .draft fun reference => ?_
  dsimp only
  split
  · split
    · exact .pure _
    · exact refuses _
  · split
    · exact refuses _
    · split
      · split
        · exact refuses _
        · exact .bind (.modifyDraft _) fun _ => .lift (endures_checkValues _ _ _)
      · split
        · exact .internal _
        · split
          · exact .lift (endures_checkValues _ _ _)
          · exact refuses _

end Arguments

theorem TypeArguments.endures_positions (reference : Reference) (generic : String)
    (parameters : List String) : (positions reference generic parameters).Endures := by
  have refuses (diagnostics : List Diagnostic) : (refuse diagnostics).Endures :=
    .bind (endures_recordAll _) fun _ => .pure _
  unfold positions
  dsimp only
  split
  · exact refuses _
  · split
    · exact refuses _
    · split
      · split
        · exact refuses _
        · exact .pure _
      · split
        · exact .internal _
        · split
          · exact refuses _
          · split
            · exact refuses _
            · exact .pure _

namespace Resolver

/-- No fatal diagnostic ends a resolution. -/
def Endures (resolver : Resolver) : Prop :=
  ∀ scope, (resolver scope).Endures

variable {inner nested : Resolver}

theorem endures_named : (named load).Endures := by
  intro scope
  refine .bind .draft fun reference => .bind (.lift (endures_orRecorded _ _)) fun found => ?_
  cases found with
  | none => exact .pure _
  | some id => exact .bind (.modifyDraft _) fun _ => .pure _

theorem endures_withArguments (endures : inner.Endures) : (withArguments inner).Endures := by
  intro scope
  refine .bind (endures scope) fun found => ?_
  cases found with
  | none => exact .pure _
  | some target =>
      refine .bind (.lift endures_context) fun context =>
        .bind (Arguments.endures_check _ _) fun valid => ?_
      split <;> exact .pure _

theorem endures_admits (generic : DefinitionId) (parameter : String) (scope : Option DefinitionId)
    (span : Span) (id : DefinitionId) :
    (admits frontEnd generic parameter scope span id).Endures := by
  refine .bind endures_context fun context => ?_
  dsimp only
  split
  · exact .bind (endures_recordError _ _ _) fun _ => .pure _
  · split
    · exact .pure _
    · split
      · exact .pure _
      · exact .bind (endures_recordAll _) fun _ => .pure _

theorem endures_bind (endures : nested.Endures) (scope : Option DefinitionId)
    (generic : DefinitionId) (parameter : String) :
    (bind frontEnd load nested scope generic parameter).Endures := by
  have bare : (bindReference load nested scope).Endures := by
    refine .bind .draft fun reference => ?_
    split
    · exact endures_named scope
    · exact endures scope
  refine .bind .draft fun argument => ?_
  split
  · refine .bind (.lift endures_context) fun context => ?_
    split
    · exact .pure _
    · exact .bind (.lift (endures_recordError _ _ _)) fun _ => .pure _
  · refine .bind (.onPart bare) fun found => ?_
    cases found with
    | none => exact .pure _
    | some id =>
        refine .bind (.lift (endures_admits _ _ _ _ _)) fun admitted => ?_
        split <;> exact .pure _

theorem endures_bindAll {step : String → Revising TypeArgument (Option TypeBinding)}
    (steps : ∀ parameter, (step parameter).Endures) (positions : List (String × Nat))
    (bindings : TypeBindings) : (bindAll step positions bindings).Endures := by
  induction positions generalizing bindings with
  | nil => exact .pure _
  | cons bound rest induction =>
      obtain ⟨parameter, position⟩ := bound
      have here : (atTypeArgument position (step parameter)).Endures := by
        refine .bind .draft fun reference => ?_
        split
        · exact .pure _
        · exact .onPart (steps parameter)
      refine .bind here fun found => ?_
      cases found with
      | none => exact .bind (induction _) fun _ => .pure _
      | some binding => exact induction _

theorem endures_withInstances (endures : inner.Endures) (enduresNested : nested.Endures) :
    (withInstances frontEnd load nested inner).Endures := by
  intro scope
  refine .bind (endures scope) fun found => ?_
  cases found with
  | none => exact .pure _
  | some generic =>
      refine .bind (.lift (endures_definition _)) fun definition => .bind .draft fun reference => ?_
      dsimp only
      split
      · exact .pure _
      · refine .bind (.lift (TypeArguments.endures_positions _ _ _)) fun positions => ?_
        cases positions with
        | none => exact .pure _
        | some positions =>
            refine .bind (endures_bindAll (endures_bind enduresNested scope generic) _ _)
              fun bindings => ?_
            cases bindings with
            | none => exact .pure _
            | some bindings =>
                refine .bind (.lift (endures_orRecorded _ _)) fun found => ?_
                cases found with
                | none => exact .pure _
                | some id =>
                    exact .bind (.lift (endures_definition _)) fun _ =>
                      .bind (.modifyDraft _) fun _ => .pure _

/-- A failure is left for others to report. -/
theorem endures_peek (name : String) : (peek load name).Endures := by
  refine .bind (.outcome _) fun result => ?_
  cases result with
  | ok id => exact .bind (endures_definition _) fun _ => .pure _
  | error error =>
      cases error with
      | fatal diagnostic => exact .pure _
      | aborted => exact .aborted
      | internal error => exact .internal _

theorem endures_hoist : (hoist load).Endures := by
  have names (reference : Reference) : (argumentNames? load reference).Endures := by
    unfold argumentNames?
    split
    · exact .pure _
    · split
      · exact .pure _
      · refine .bind (endures_peek _) fun found => ?_
        cases found with
        | none => exact .pure _
        | some target =>
            dsimp only
            split <;> exact .pure _
  have takes (parameters : List String) (position : Nat) :
      (takeArguments load parameters position).Endures := by
    refine .bind .draft fun argument => ?_
    split
    · split
      · exact .pure _
      · refine .bind (.lift (names _)) fun names => ?_
        cases names with
        | none => exact .pure _
        | some names => exact .bind (.modifyDraft _) fun _ => .pure _
    · exact .pure _
  refine .bind .draft fun reference => .bind (.lift (endures_peek _)) fun found => ?_
  cases found with
  | none => exact .pure _
  | some generic => exact .bind (.onPart (.each (takes _))) fun hoisted => .modifyDraft _

theorem endures_withHoisting (endures : inner.Endures) : (withHoisting load inner).Endures := by
  intro scope
  refine .bind .draft fun reference => ?_
  dsimp only
  split
  · exact .bind endures_hoist fun _ => endures scope
  · exact endures scope

theorem endures_withSubstitution (endures : inner.Endures) :
    (withSubstitution load inner).Endures := by
  intro scope
  refine .bind (endures scope) fun found => ?_
  cases found with
  | none => exact .pure _
  | some target =>
      refine .bind .draft fun reference =>
        .bind (.lift (endures_substituteValues load _ _ _)) fun copied => ?_
      cases copied with
      | notApplicable => exact .pure _
      | failed => exact .pure _
      | substituted id =>
          exact .bind (.lift (endures_definition _)) fun _ => .bind (.modifyDraft _) fun _ => .pure _

theorem endures_withImports (endures : inner.Endures) : (withImports frontEnd inner).Endures := by
  intro scope
  cases scope with
  | none => exact endures none
  | some id =>
      exact .bind (.lift endures_context) fun context => .bind (.modifyDraft _) fun _ =>
        endures (some id)

theorem endures_withCache (endures : inner.Endures) : (withCache inner).Endures := by
  intro scope
  refine .bind (.lift endures_context) fun context => .bind .draft fun reference => ?_
  dsimp only
  split
  · exact .bind (.modifyDraft _) fun _ => .pure _
  · refine .bind (endures scope) fun found => ?_
    cases found with
    | none => exact .pure _
    | some id => exact .bind (.lift (endures_update _)) fun _ => .pure _

theorem endures_full : (full frontEnd load).Endures := by
  have nestedTo (depth : Nat) : (nestedTo frontEnd load depth).Endures := by
    have layered {nested : Resolver} (endures : nested.Endures) :
        (ofLayers frontEnd load nested layers).Endures :=
      endures_withCache (endures_withImports (endures_withSubstitution (endures_withHoisting
        (endures_withInstances (endures_withArguments endures_named) endures))))
    induction depth with
    | zero => exact layered fun _ => .pure _
    | succ depth induction => exact layered induction
  exact fun scope => .bind .draft fun reference => nestedTo _ scope

end Resolver

/-! ## Parts and parents -/

variable {resolver : Resolver} (endures : resolver.Endures)
include endures

theorem TypeParameters.endures_check (id : DefinitionId) : (check resolver id).Endures := by
  have conforms : (checkConformance resolver id).Endures := by
    refine .bind .draft fun parameter => ?_
    split
    · exact .pure _
    · dsimp only
      split
      · exact .pure _
      · refine .bind (.onPart (endures _)) fun found => ?_
        cases found with
        | none => exact .pure _
        | some type =>
            refine .bind (.lift (endures_definition _)) fun found => ?_
            split
            · exact .bind .draft fun _ => .lift (endures_recordError _ _ _)
            · exact .pure _
  have declares (definition : Definition) (component : Component) :
      (checkPlaceholder definition component).Endures := by
    unfold checkPlaceholder
    split
    · exact .pure _
    · split
      · exact .pure _
      · exact endures_recordError _ _ _
  refine .bind (endures_definition id) fun definition => ?_
  split
  · exact endures_revise id (.bind (.lift (.forM fun _ => endures_recordError _ _ _)) fun _ =>
      .bind (.onPart (.each fun _ => conforms)) fun _ => .forM fun component =>
        .bind .draft fun _ => .lift (declares _ component))
  · exact .pure _

theorem SubComponents.endures_resolveAll (id : DefinitionId) : (resolveAll resolver id).Endures := by
  have accepts (component : Component) (id : DefinitionId) : (accept component id).Endures := by
    refine .bind (.lift (endures_definition id)) fun found => ?_
    split
    · exact .bind (.lift (endures_recordError _ _ _)) fun _ => .modifyDraft _
    · exact .modifyDraft _
  have resolves : (resolve resolver id).Endures := by
    refine .bind .draft fun component => .bind (.lift endures_context) fun context => ?_
    dsimp only
    split
    · exact .modifyDraft _
    · exact .pure _
    · refine .bind (.onPart (endures _)) fun found => ?_
      cases found with
      | none => exact .modifyDraft _
      | some id => exact accepts component id
  refine .bind (endures_definition id) fun definition => ?_
  split
  · exact endures_revise id (.bind (.lift (.forM fun _ => endures_recordError _ _ _)) fun _ =>
      .bind (.onPart (.each fun _ => resolves)) fun _ => .pure _)
  · exact .pure _

namespace Parents

theorem endures_resolve (load : String → Loading DefinitionId) (id : DefinitionId)
    (child : Definition) : (resolve resolver load id child).Endures := by
  have judges (parent : DefinitionId) : (judge child parent).Endures := by
    refine .bind .draft fun reference => .bind (.lift (endures_definition parent)) fun found => ?_
    split
    · exact .pure _
    · exact .bind (.lift (endures_recordError _ _ _)) fun _ => .pure _
  refine .bind (endures _) fun found => ?_
  cases found with
  | none => exact .pure _
  | some target =>
      refine .bind .draft fun reference =>
        .bind (.lift (endures_substituteValues load _ _ _)) fun copied => ?_
      cases copied with
      | notApplicable => exact judges _
      | failed => exact judges _
      | substituted copy =>
          exact .bind (.lift (endures_definition copy)) fun _ =>
            .bind (.modifyDraft _) fun _ => judges _

theorem endures_merge (load : String → Loading DefinitionId) (id : DefinitionId) :
    (merge resolver load id).Endures := by
  have inherits (checksMarkers : Bool) (child parent : Definition) :
      (Inheritance.inherit checksMarkers child parent).Endures :=
    .bind (endures_recordAll _) fun _ => .pure _
  have combines (parents : List DefinitionId) : ∀ combined, (combine combined parents).Endures := by
    induction parents with
    | nil => exact fun _ => .pure _
    | cons id rest induction =>
        intro combined
        refine .bind (endures_definition id) fun parent => ?_
        cases combined with
        | none => exact induction _
        | some combined => exact .bind (inherits _ _ _) fun _ => induction _
  refine .bind (endures_definition id) fun definition => ?_
  dsimp only
  split
  · exact .pure _
  · split
    · exact endures_update _
    · refine endures_revise id (.bind (.onPart (.each fun _ => endures_resolve endures load id _))
        fun found => .bind (.lift (combines _ _)) fun inherited => ?_)
      cases inherited with
      | none => exact .modifyDraft _
      | some inherited =>
          exact .bind (.bind .draft fun _ => .bind (.modifyDraft _) fun _ =>
            .bind (.lift (inherits _ _ _)) fun _ => .modifyDraft _) fun _ => .modifyDraft _

end Parents

omit endures

/-! ## The membrane, bindings and attributes -/

theorem endures_delegateInterfaces (id : DefinitionId) : (delegateInterfaces id).Endures := by
  refine .bind (endures_definition id) fun definition => ?_
  split
  · split
    · exact .pure _
    · exact .bind (.ofExcept _) fun _ => endures_update _
  · exact .pure _

theorem endures_onBindings {revision : Revising Definition Unit} (endures : revision.Endures)
    (id : DefinitionId) :
    (do if !(← Loading.definition id).bindings.isEmpty then Loading.revise id revision :
      Loading Unit).Endures := by
  refine .bind (endures_definition id) fun definition => ?_
  split
  · exact endures_revise id endures
  · exact .pure _

theorem endures_normalizeBindings : normalizeBindings.Endures := by
  have keeps (bindings : List Binding) :
      ∀ firsts, (Binding.keepFirst firsts bindings).Endures := by
    induction bindings with
    | nil => exact fun _ => .pure _
    | cons binding rest induction =>
        intro firsts
        unfold Binding.keepFirst
        split
        · exact .bind (endures_record _) fun _ => induction _
        · exact .bind (induction _) fun _ => .pure _
  exact .bind .draft fun definition => .bind (.lift endures_context) fun context =>
    .bind (.lift (keeps _ _)) fun _ => .modifyDraft _

theorem endures_checkBindings (extends? : String → String → Bool) :
    (checkBindings extends?).Endures := by
  have settles (result : Except (List Diagnostic) Bool) : (settleBinding result).Endures := by
    unfold settleBinding
    split
    · exact .modifyDraft _
    · exact .lift (endures_recordAll _)
  exact .bind .draft fun definition => .bind (.lift endures_context) fun context =>
    .bind (.onPart (.each fun _ => .bind .draft fun _ => settles _)) fun _ => .pure _

theorem endures_settleAttributes (id : DefinitionId) : (settleAttributes id).Endures := by
  have settles (owner : Definition) : (Attribute.settle owner).Endures := by
    refine .bind .draft fun declared => ?_
    dsimp only
    split
    · exact .modifyDraft _
    · refine .lift ?_
      unfold Attribute.checkNumber
      split
      · exact endures_recordError _ _ _
      · split
        · exact endures_update _
        · exact .pure _
    · refine .lift ?_
      unfold Attribute.checkReference
      split
      · exact endures_recordError _ _ _
      · refine .bind (endures_infer _ _ _) fun inferred => ?_
        cases inferred with
        | none => exact .pure _
        | some inferred =>
            dsimp only
            split
            · exact endures_recordError _ _ _
            · exact .pure _
    · refine .lift ?_
      unfold Attribute.checkText
      split
      · exact endures_recordError _ _ _
      · exact .pure _
  refine .bind (endures_definition id) fun definition => ?_
  split
  · exact endures_revise id (.bind (.onPart (.each fun _ => settles _)) fun _ => .pure _)
  · exact .pure _

/-! ## The stages -/

namespace Stage

/-- The stages that may refuse a definition. -/
def refusing : List Stage :=
  [.membrane, .coverage]

/-- Only for its membrane and its bindings a definition is refused. -/
theorem endures_run (endures : frontEnd.registry.Endures) (load : String → Loading DefinitionId)
    (name : String) (id : DefinitionId) {stage : Stage} (others : stage ∉ refusing) :
    (stage.run frontEnd load name id).Endures := by
  have resolves : (Resolver.full frontEnd load).Endures := Resolver.endures_full
  cases stage with
  | annotations => exact AnnotationRegistry.endures_checkDefinition id
  | process phase => exact AnnotationRegistry.endures_processStored endures phase id
  | typeParameters => exact TypeParameters.endures_check resolves id
  | subComponents => exact SubComponents.endures_resolveAll resolves id
  | parents => exact Parents.endures_merge resolves load id
  | subComponentAnnotations =>
      exact AnnotationRegistry.endures_processStoredSubComponents endures id
  | interfaces => exact .bind (endures_definition id) fun _ => endures_recordAll _
  | delegation => exact endures_delegateInterfaces id
  | membrane => exact absurd (by decide) others
  | expandBindings => exact endures_onBindings endures_normalizeBindings id
  | checkBindings => exact endures_onBindings (endures_checkBindings _) id
  | coverage => exact absurd (by decide) others
  | parameters =>
      exact .bind (endures_definition id) fun _ => .forM fun _ => endures_recordError _ _ _
  | attributes => exact endures_settleAttributes id

/-- Stages that end with a fatal diagnostic ran up to one that refuses the definition. -/
theorem refused_of_forM (endures : frontEnd.registry.Endures) {load : String → Loading DefinitionId}
    {name : String} {id : DefinitionId} {stages : List Stage} {context reached : Context}
    {diagnostic : Diagnostic}
    (fails : stages.forM (run frontEnd load name id) context = (.error (.fatal diagnostic), reached)) :
    ∃ first stage rest middle, stage ∈ refusing ∧ stages = first ++ stage :: rest ∧
      first.forM (run frontEnd load name id) context = (.ok (), middle) ∧
      run frontEnd load name id stage middle = (.error (.fatal diagnostic), reached) := by
  induction stages generalizing context with
  | nil => cases fails
  | cons stage rest induction =>
      rw [List.forM_eq_forM, List.forM_cons, bind_apply] at fails
      rcases outcome : run frontEnd load name id stage context with ⟨error | ⟨⟩, middle⟩
      · rw [outcome] at fails
        cases fails
        refine ⟨[], stage, rest, context, ?_, rfl, rfl, outcome⟩
        by_contra others
        exact endures_run endures load name id others context diagnostic (congrArg Prod.fst outcome)
      · rw [outcome] at fails
        obtain ⟨first, last, after, before, isLast, same, ran, refuses⟩ := induction fails
        refine ⟨stage :: first, last, after, before, isLast, congrArg (stage :: ·) same, ?_, refuses⟩
        rw [List.forM_eq_forM, List.forM_cons, bind_of_ok outcome]
        exact ran

end Stage

end Adl
