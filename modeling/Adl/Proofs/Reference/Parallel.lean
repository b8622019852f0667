import Adl.Proofs.Loading.Parallel
import Adl.Proofs.Template.Copies
import Adl.Reference.Resolution

namespace Adl

open Step

/-! Resolution side by side. Where the loaders of two compilations run in parallel, so do the
layers of resolution, and what makes instances and copies. -/

variable {pairing : Pairing Context} (views : pairing.Views)

/-! ## Annotations -/

/-- The processors take no notice of policies but in what they report. -/
def AnnotationRegistry.RunsParallel (registry : AnnotationRegistry) (pairing : Pairing Context) :
    Prop :=
  ∀ kind processor, registry.processor? kind = some processor →
    ∀ built node definition phase, Parallel pairing (processor built node definition phase)
      (processor built node definition phase)

include views

namespace Singleton

theorem parallel_settle (definition : Definition) :
    Parallel pairing (settle definition) (settle definition) := by
  have blind : ∀ (context : Context) (option policy : ErrorPolicy) firsts components,
      duplicates (context.withPolicies option policy) firsts components =
        duplicates context firsts components := by
    intro context option policy firsts components
    induction components generalizing firsts with
    | nil => rfl
    | cons component rest induction =>
        unfold duplicates
        simp only [induction]
        rfl
  refine views.context (fun context option policy => ?_) fun context =>
    .bind (views.recordAll _) fun _ => ?_
  · simp only [blind]
  · split
    · exact .pure _
    · exact .pure _

theorem parallel_spread (definition : Definition) (node : NodePath) (announced : Bool) :
    Parallel pairing (spread definition node announced) (spread definition node announced) := by
  unfold spread
  split
  · exact .pure _
  · split
    · exact .bind (views.warn _ _ _) fun _ => .pure _
    · exact .pure _

theorem parallel_process (built : Annotation) (node : NodePath) (definition : Definition)
    (phase : Phase) : Parallel pairing (process built node definition phase)
      (process built node definition phase) := by
  cases phase with
  | afterChecking | afterTemplateInstantiate => exact parallel_settle views definition
  | onSubComponent | onTemplateSubComponent => exact parallel_spread views definition node _
  | afterParsing | afterExtends => exact .pure _

end Singleton

namespace Control

theorem parallel_process (built : Annotation) (node : NodePath) (definition : Definition)
    (phase : Phase) : Parallel pairing (process built node definition phase)
      (process built node definition phase) := by
  have rejects : ∀ reason, Parallel pairing (reject definition built reason)
      (reject definition built reason) :=
    fun reason => .bind (views.recordError _ _ _) fun _ => .pure _
  have extends' : ∀ result, Parallel pairing (extended result) (extended result) :=
    fun result => .bind (.ofExcept result) fun _ => .pure _
  unfold process
  split
  · exact extends' _
  · split
    · exact rejects _
    · exact extends' _
  · split
    · exact rejects _
    · exact extends' _
  · split
    · exact extends' _
    · exact rejects _
  · exact extends' _
  all_goals exact .pure _

end Control

namespace AnnotationRegistry

/-- The predefined processors only report. -/
theorem runsParallel_predefined : predefined.RunsParallel pairing := by
  intro kind processor found built node definition phase
  obtain ⟨descriptor, known, found⟩ := Option.bind_eq_some_iff.mp found
  have member := mem_predefinedKinds known
  simp only [predefinedKinds, List.mem_cons, List.not_mem_nil, or_false] at member
  rcases member with rfl | rfl | rfl | rfl | rfl | rfl | rfl | rfl <;> cases found
  · exact Singleton.parallel_process views built node definition phase
  · exact Control.parallel_process views built node definition phase
  · exact Control.parallel_process views built node definition phase
  · exact Control.parallel_process views built node definition phase
  · exact Control.parallel_process views built node definition phase
  · exact Control.parallel_process views built node definition phase
  · exact .pure _

variable {registry : AnnotationRegistry} (runs : registry.RunsParallel pairing) (phase : Phase)
include runs

omit views in
theorem parallel_runProcessor (path : NodePath) (definition : Definition) (built : Annotation) :
    Parallel pairing (registry.runProcessor phase path definition built)
      (registry.runProcessor phase path definition built) := by
  unfold runProcessor
  split
  · exact .fail _
  · rename_i processor found
    exact .bind (runs _ processor found built path definition phase) fun _ => .pure _

omit views in
theorem parallel_processDefinition (definition : Definition) :
    Parallel pairing (registry.processDefinition phase definition)
      (registry.processDefinition phase definition) :=
  .foldlM (fun definition path =>
    .foldlM (fun definition built => parallel_runProcessor runs phase path definition built)
      definition) definition

theorem parallel_processSubComponents (definition : Definition) (indices : List Nat) :
    Parallel pairing (registry.processSubComponents phase definition indices)
      (registry.processSubComponents phase definition indices) := by
  refine .foldlM (fun definition index => ?_) definition
  unfold processSubComponent
  split
  · exact .pure _
  · exact .bind (views.definition _) fun found =>
      .foldlM (fun definition built =>
        parallel_runProcessor runs phase (.component index) definition built) definition

end AnnotationRegistry

/-! ## Copies -/

variable {frontEnd : FrontEnd} {load twin : String → Loading DefinitionId}
  (loads : ∀ name, Parallel pairing (load name) (twin name))

include loads

omit views in
theorem parallel_substituteValues (observes : pairing.Observes) (reference : Reference) (target : DefinitionId)
    (allowReferences : Bool) :
    Parallel pairing (substituteValues load reference target allowReferences)
      (substituteValues twin reference target allowReferences) := by
  refine .bind (observes.views.definition target) fun definition => ?_
  split
  · exact .pure _
  · rename_i bindings _
    have continues : Parallel pairing
        (Loading.orRecorded (load (Definition.substitutedName definition.name bindings))
          reference.span >>= Substitution.ofLoaded)
        (Loading.orRecorded (twin (Definition.substitutedName definition.name bindings))
          reference.span >>= Substitution.ofLoaded) := by
      refine .bind (observes.views.orRecorded (loads _) _) fun found => ?_
      cases found <;> exact .pure _
    refine observes.views.context (fun _ _ _ => rfl) fun context => ?_
    split
    · exact .bind (observes.register _ _) fun _ => continues
    · exact continues

/-! ## Instances -/

namespace InstanceRequest

variable (request : InstanceRequest) (runs : frontEnd.registry.RunsParallel pairing)

omit loads in
theorem parallel_exposeParameters (name : String) (definition : Definition) :
    Parallel pairing (request.exposeParameters name definition)
      (request.exposeParameters name definition) := by
  have exposes : ∀ index parameter bound definition exposed,
      Parallel pairing (exposeParameter name index parameter bound definition exposed)
        (exposeParameter name index parameter bound definition exposed) := by
    intro index parameter bound definition exposed
    refine views.context (fun _ _ _ => rfl) fun context => ?_
    dsimp only
    split
    · exact .bind (views.infer _ _ _) fun _ => .pure _
    · exact .pure _
  refine .bind (views.definition _) fun generic => .foldlM (fun definition placeholder => ?_) _
  unfold exposeComponent
  split
  · exact .pure _
  · split
    · exact .bind (views.definition _) fun bound =>
        .foldlM (fun definition exposed => exposes _ _ _ definition exposed) definition
    · exact .pure _

omit loads in
include runs in
theorem parallel_build (name : String) :
    Parallel pairing (request.build frontEnd.registry layers name)
      (request.build frontEnd.registry layers name) := by
  have blind (context : Context) (option policy : ErrorPolicy) :
      request.bare (context.withPolicies option policy) name = request.bare context name :=
    bare_of_definition rfl
  refine views.context (fun _ _ _ => by simp only [blind]) fun context =>
    .foldlM (fun definition layer => ?_) _
  cases layer with
  | parameters => exact parallel_exposeParameters views request name definition
  | annotations =>
      exact .bind (views.definition _) fun generic =>
        .bind (AnnotationRegistry.parallel_processSubComponents views runs _ _ _) fun definition =>
          AnnotationRegistry.parallel_processDefinition runs _ definition

omit views in
include runs in
theorem parallel_load (observes : pairing.Observes) :
    Parallel pairing (request.load frontEnd.registry load)
      (request.load frontEnd.registry twin) := by
  refine observes.views.context (fun _ _ _ => rfl) fun context => ?_
  dsimp only
  split
  · exact .bind (parallel_build observes.views request runs _) fun definition =>
      .bind (observes.register _ _) fun _ => loads _
  · exact loads _

end InstanceRequest

/-- Copies and instances are made in parallel. -/
structure Pairing.Makes (pairing : Pairing Context) (frontEnd : FrontEnd)
    (load twin : String → Loading DefinitionId) : Prop where
  copies : ∀ reference target allowReferences,
    Parallel pairing (substituteValues load reference target allowReferences)
      (substituteValues twin reference target allowReferences)
  instances : ∀ request : InstanceRequest,
    Parallel pairing (request.load frontEnd.registry load) (request.load frontEnd.registry twin)

omit views in
theorem Pairing.Observes.makes (observes : pairing.Observes)
    (runs : frontEnd.registry.RunsParallel pairing) : pairing.Makes frontEnd load twin where
  copies := parallel_substituteValues loads observes
  instances request := InstanceRequest.parallel_load loads request runs observes

/-! ## Arguments -/

namespace Arguments

variable (target : Definition)

omit loads in
theorem parallel_checkForwarded (span : Span) (scope : Option Definition) (used : String)
    (expected : Option ParameterType) :
    Parallel pairing (checkForwarded span scope used expected)
      (checkForwarded span scope used expected) := by
  unfold checkForwarded
  split
  · exact .bind (views.recordError _ _ _) fun _ => .pure _
  · split
    · exact .pure _
    · refine .bind (views.infer _ _ _) fun previous => ?_
      split
      · exact .pure _
      · split
        · exact .pure _
        · exact .bind (views.recordError _ _ _) fun _ => .pure _

omit loads in
theorem parallel_checkValues (scope : Option Definition) (arguments : List Argument) :
    Parallel pairing (checkValues target scope arguments) (checkValues target scope arguments) := by
  have checked (argument : Argument) :
      Parallel pairing (checkValue target scope argument) (checkValue target scope argument) := by
    refine views.context (fun _ _ _ => rfl) fun context => ?_
    dsimp only
    split
    · exact parallel_checkForwarded views _ _ _ _
    · split
      · exact .pure _
      · split
        · exact .pure _
        · exact .bind (views.recordError _ _ _) fun _ => .pure _
  induction arguments with
  | nil => exact .pure _
  | cons argument rest induction =>
      exact .bind (checked argument) fun _ => .bind induction fun _ => .pure _

omit loads in
theorem parallel_check (scope : Option Definition) :
    Parallel (pairing.drafting Reference) (check target scope) (check target scope) := by
  have refuses (diagnostics : List Diagnostic) : Parallel (pairing.drafting Reference)
      (liftM (refuse diagnostics) : Revising Reference Bool) (liftM (refuse diagnostics)) :=
    .lift (.bind (views.recordAll _) fun _ => .pure _)
  refine .bind .draft fun reference => ?_
  dsimp only
  split
  · split
    · exact .pure _
    · exact refuses _
  · split
    · exact refuses _
    · split
      · split
        · exact refuses _
        · exact .bind (.modifyDraft _) fun _ => .lift (parallel_checkValues views target _ _)
      · split
        · exact .fail _
        · split
          · exact .lift (parallel_checkValues views target _ _)
          · exact refuses _

end Arguments

omit loads in
theorem TypeArguments.parallel_positions (reference : Reference) (generic : String)
    (parameters : List String) :
    Parallel pairing (positions reference generic parameters)
      (positions reference generic parameters) := by
  have refuses (diagnostics : List Diagnostic) :
      Parallel pairing (refuse diagnostics) (refuse diagnostics) :=
    .bind (views.recordAll _) fun _ => .pure _
  unfold positions
  dsimp only
  split
  · exact refuses _
  · split
    · exact refuses _
    · split
      · split
        · exact refuses _
        · exact .pure _
      · split
        · exact .fail _
        · split
          · exact refuses _
          · split
            · exact refuses _
            · exact .pure _

/-! ## Layers of resolution -/

namespace Resolver

/-- Two ways to resolve that stay paired in every scope. -/
def Pairs (pairing : Pairing Context) (resolver other : Resolver) : Prop :=
  ∀ scope, Parallel (pairing.drafting Reference) (resolver scope) (other scope)

variable {inner innerTwin nested nestedTwin : Resolver}
  (resolves : Pairs pairing inner innerTwin) (makes : pairing.Makes frontEnd load twin)
  (resolvesNested : Pairs pairing nested nestedTwin)

theorem pairs_named : Pairs pairing (named load) (named twin) := by
  intro scope
  refine .bind .draft fun reference => .bind (.lift (views.orRecorded (loads _) _)) fun found => ?_
  cases found with
  | none => exact .pure _
  | some id => exact .bind (.modifyDraft _) fun _ => .pure _

include resolves in
omit loads in
theorem pairs_withArguments : Pairs pairing (withArguments inner) (withArguments innerTwin) := by
  intro scope
  refine .bind (resolves scope) fun found => ?_
  cases found with
  | none => exact .pure _
  | some target =>
      refine views.contextDrafting (fun _ _ _ => rfl) fun context =>
        .bind (Arguments.parallel_check views _ _) fun valid => ?_
      split
      · exact .pure _
      · exact .pure _

omit loads in
theorem parallel_admits (generic : DefinitionId) (parameter : String)
    (scope : Option DefinitionId) (span : Span) (id : DefinitionId) :
    Parallel pairing (admits frontEnd generic parameter scope span id)
      (admits frontEnd generic parameter scope span id) := by
  refine views.context (fun _ _ _ => rfl) fun context => ?_
  dsimp only
  split
  · exact .bind (views.recordError _ _ _) fun _ => .pure _
  · split
    · exact .pure _
    · split
      · exact .pure _
      · exact .bind (views.recordAll _) fun _ => .pure _

include resolvesNested in
theorem parallel_bind (scope : Option DefinitionId) (generic : DefinitionId) (parameter : String) :
    Parallel (pairing.drafting TypeArgument) (bind frontEnd load nested scope generic parameter)
      (bind frontEnd twin nestedTwin scope generic parameter) := by
  have bare : Parallel (pairing.drafting Reference) (bindReference load nested scope)
      (bindReference twin nestedTwin scope) := by
    refine .bind .draft fun reference => ?_
    split
    · exact pairs_named views loads scope
    · exact resolvesNested scope
  refine .bind .draft fun argument => ?_
  split
  · refine views.contextDrafting (fun _ _ _ => rfl) fun context => ?_
    split
    · exact .pure _
    · exact .bind (.lift (views.recordError _ _ _)) fun _ => .pure _
  · refine .bind (.onPart bare) fun found => ?_
    cases found with
    | none => exact .pure _
    | some id =>
        refine .bind (.lift (parallel_admits views _ _ _ _ _)) fun admitted => ?_
        split
        · exact .pure _
        · exact .pure _

omit views loads in
theorem parallel_bindAll {step stepTwin : String → Revising TypeArgument (Option TypeBinding)}
    (steps : ∀ parameter,
      Parallel (pairing.drafting TypeArgument) (step parameter) (stepTwin parameter))
    (positions : List (String × Nat)) (bindings : TypeBindings) :
    Parallel (pairing.drafting Reference) (bindAll step positions bindings)
      (bindAll stepTwin positions bindings) := by
  induction positions generalizing bindings with
  | nil => exact .pure _
  | cons bound rest induction =>
      obtain ⟨parameter, position⟩ := bound
      have here : Parallel (pairing.drafting Reference) (atTypeArgument position (step parameter))
          (atTypeArgument position (stepTwin parameter)) := by
        refine .bind .draft fun reference => ?_
        split
        · exact .pure _
        · exact .onPart (steps parameter)
      refine .bind here fun found => ?_
      cases found with
      | none => exact .bind (induction _) fun _ => .pure _
      | some binding => exact induction _

include resolves makes resolvesNested in
theorem pairs_withInstances :
    Pairs pairing (withInstances frontEnd load nested inner)
      (withInstances frontEnd twin nestedTwin innerTwin) := by
  intro scope
  refine .bind (resolves scope) fun found => ?_
  cases found with
  | none => exact .pure _
  | some generic =>
      refine .bind (.lift (views.definition _)) fun definition => .bind .draft fun reference => ?_
      dsimp only
      split
      · exact .pure _
      · refine .bind (.lift (TypeArguments.parallel_positions views _ _ _)) fun positions => ?_
        cases positions with
        | none => exact .pure _
        | some positions =>
            refine .bind (parallel_bindAll
              (parallel_bind views loads resolvesNested scope generic) _ _) fun bindings => ?_
            cases bindings with
            | none => exact .pure _
            | some bindings =>
                refine .bind (.lift (views.orRecorded
                  (makes.instances _) _)) fun found => ?_
                cases found with
                | none => exact .pure _
                | some id =>
                    exact .bind (.lift (views.definition _)) fun _ =>
                      .bind (.modifyDraft _) fun _ => .pure _

/-! ## Hoisting -/

theorem parallel_peek (name : String) : Parallel pairing (peek load name) (peek twin name) := by
  refine .outcome_bind (loads name) (fun _ => rfl) fun result => ?_
  cases result with
  | ok id => exact .bind (views.definition _) fun _ => .pure _
  | error error =>
      cases error with
      | fatal diagnostic => exact .pure _
      | aborted => exact .fail _
      | internal error => exact .fail _

theorem parallel_argumentNames (reference : Reference) :
    Parallel pairing (argumentNames? load reference) (argumentNames? twin reference) := by
  unfold argumentNames?
  split
  · exact .pure _
  · split
    · exact .pure _
    · refine .bind (parallel_peek views loads _) fun found => ?_
      cases found with
      | none => exact .pure _
      | some target =>
          dsimp only
          split
          · exact .pure _
          · exact .pure _

theorem parallel_hoist :
    Parallel (pairing.drafting Reference) (hoist load) (hoist twin) := by
  have takes (parameters : List String) (position : Nat) :
      Parallel (pairing.drafting TypeArgument) (takeArguments load parameters position)
        (takeArguments twin parameters position) := by
    refine .bind .draft fun argument => ?_
    split
    · split
      · exact .pure _
      · refine .bind (.lift (parallel_argumentNames views loads _)) fun names => ?_
        cases names with
        | none => exact .pure _
        | some names => exact .bind (.modifyDraft _) fun _ => .pure _
    · exact .pure _
  refine .bind .draft fun reference => .bind (.lift (parallel_peek views loads _)) fun found => ?_
  cases found with
  | none => exact .pure _
  | some generic =>
      exact .bind (.onPart (.each (takes _))) fun hoisted => .modifyDraft _

include resolves in
theorem pairs_withHoisting :
    Pairs pairing (withHoisting load inner) (withHoisting twin innerTwin) := by
  intro scope
  refine .bind .draft fun reference => ?_
  dsimp only
  split
  · exact .bind (parallel_hoist views loads) fun _ => resolves scope
  · exact resolves scope

/-! ## Copies, names and the cache -/

include resolves makes in
omit loads in
theorem pairs_withSubstitution :
    Pairs pairing (withSubstitution load inner) (withSubstitution twin innerTwin) := by
  intro scope
  refine .bind (resolves scope) fun found => ?_
  cases found with
  | none => exact .pure _
  | some target =>
      refine .bind .draft fun reference =>
        .bind (.lift (makes.copies _ _ _)) fun copied => ?_
      cases copied with
      | notApplicable => exact .pure _
      | failed => exact .pure _
      | substituted id =>
          exact .bind (.lift (views.definition _)) fun _ =>
            .bind (.modifyDraft _) fun _ => .pure _

include resolves in
omit loads in
theorem pairs_withImports :
    Pairs pairing (withImports frontEnd inner) (withImports frontEnd innerTwin) := by
  intro scope
  cases scope with
  | none => exact resolves none
  | some id =>
      exact views.contextDrafting (fun _ _ _ => rfl) fun context =>
        .bind (.modifyDraft _) fun _ => resolves (some id)

include resolves in
omit loads in
theorem pairs_withCache : Pairs pairing (withCache inner) (withCache innerTwin) := by
  intro scope
  refine views.contextDrafting (fun _ _ _ => rfl) fun context => .bind .draft fun reference => ?_
  dsimp only
  split
  · exact .bind (.modifyDraft _) fun _ => .pure _
  · refine .bind (resolves scope) fun found => ?_
    cases found with
    | none => exact .pure _
    | some id =>
        exact .bind (.lift (views.update ⟨fun _ _ _ => rfl, fun _ => rfl, fun _ => rfl,
          fun _ => rfl, fun _ => rfl, fun _ => rfl⟩ fun _ => rfl)) fun _ => .pure _

/-! ## The layers together -/

include makes resolvesNested in
theorem pairs_ofLayers (layers : List ResolutionLayer) :
    Pairs pairing (ofLayers frontEnd load nested layers)
      (ofLayers frontEnd twin nestedTwin layers) := by
  refine List.foldl_rel (r := Pairs pairing) (pairs_named views loads) ?_
  intro layer _ resolver other resolves
  cases layer with
  | arguments => exact pairs_withArguments views resolves
  | instances => exact pairs_withInstances views loads resolves makes resolvesNested
  | hoisting => exact pairs_withHoisting views loads resolves
  | substitution => exact pairs_withSubstitution views resolves makes
  | imports => exact pairs_withImports views resolves
  | cache => exact pairs_withCache views resolves

include makes in
theorem pairs_full :
    Pairs pairing (full frontEnd load) (full frontEnd twin) := by
  have nestedTo (depth : Nat) :
      Pairs pairing (nestedTo frontEnd load depth) (nestedTo frontEnd twin depth) := by
    induction depth with
    | zero => exact pairs_ofLayers views loads makes (fun _ => .pure _) layers
    | succ depth induction => exact pairs_ofLayers views loads makes induction layers
  exact fun scope => .bind .draft fun reference => nestedTo _ scope

end Resolver

end Adl
