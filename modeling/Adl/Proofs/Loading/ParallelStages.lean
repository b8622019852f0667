import Adl.Compilation
import Adl.Proofs.Loading.Composition
import Adl.Proofs.Reference.Parallel

namespace Adl

open Step

/-! Stages side by side. Where the loaders of two compilations run in parallel, so do the stages
that a definition goes through, and a load with all of them. -/

variable {pairing : Pairing Context} {frontEnd : FrontEnd} {resolver other : Resolver}
  {load twin : String → Loading DefinitionId}

/-! ## What writes to no slot -/

section Viewing

variable (views : pairing.Views)
include views

namespace AnnotationRegistry

variable {registry : AnnotationRegistry}

theorem parallel_checkNodes (target : Target) (accepted : List Annotation)
    (nodes : List AnnotationNode) :
    Parallel pairing (registry.checkNodes target accepted nodes)
      (registry.checkNodes target accepted nodes) := by
  induction nodes generalizing accepted with
  | nil => exact .pure _
  | cons node rest induction =>
      unfold checkNodes
      split
      · exact .bind (views.recordError _ _ _) fun _ => induction _
      · split
        · exact .bind (views.recordError _ _ _) fun _ => induction _
        · split
          · exact .bind (views.recordError _ _ _) fun _ => induction _
          · exact induction _

theorem parallel_checkElement (path : NodePath) :
    Parallel (pairing.drafting Definition) (registry.checkElement path)
      (registry.checkElement path) := by
  refine .bind .draft fun definition => ?_
  split
  · exact .pure _
  · exact .bind (.lift (parallel_checkNodes views _ _ _)) fun _ => .modifyDraft _

end AnnotationRegistry

theorem parallel_checkInterfaces (id : DefinitionId) :
    Parallel pairing (checkInterfaces id) (checkInterfaces id) :=
  .bind (views.definition id) fun _ => views.recordAll _

theorem parallel_checkParameters (id : DefinitionId) :
    Parallel pairing (checkParameters id) (checkParameters id) :=
  .bind (views.definition id) fun _ => .forM fun _ _ => views.recordError _ _ _

theorem Attribute.parallel_settle (owner : Definition) :
    Parallel (pairing.drafting Attribute) (settle owner) (settle owner) := by
  refine .bind .draft fun declared => ?_
  dsimp only
  split
  · exact .modifyDraft _
  · refine .lift ?_
    unfold checkNumber
    split
    · exact views.recordError _ _ _
    · split
      · exact views.warn _ _ _
      · exact .pure _
  · refine .lift ?_
    unfold checkReference
    split
    · exact views.recordError _ _ _
    · refine .bind (views.infer _ _ _) fun inferred => ?_
      cases inferred with
      | none => exact .pure _
      | some inferred =>
          dsimp only
          split
          · exact views.recordError _ _ _
          · exact .pure _
  · refine .lift ?_
    unfold checkText
    split
    · exact views.recordError _ _ _
    · exact .pure _

section Resolvers

variable (resolves : Resolver.Pairs pairing resolver other)

namespace TypeParameters

include resolves in
theorem parallel_checkConformance (id : DefinitionId) :
    Parallel (pairing.drafting FormalTypeParameter) (checkConformance resolver id)
      (checkConformance other id) := by
  refine .bind .draft fun parameter => ?_
  split
  · exact .pure _
  · dsimp only
    split
    · exact .pure _
    · refine .bind (.onPart (resolves _)) fun found => ?_
      cases found with
      | none => exact .pure _
      | some type =>
          refine .bind (.lift (views.definition _)) fun found => ?_
          split
          · exact .bind .draft fun _ => .lift (views.recordError _ _ _)
          · exact .pure _

theorem parallel_checkPlaceholder (definition : Definition) (component : Component) :
    Parallel pairing (checkPlaceholder definition component)
      (checkPlaceholder definition component) := by
  unfold checkPlaceholder
  split
  · exact .pure _
  · split
    · exact .pure _
    · exact views.recordError _ _ _

end TypeParameters

include resolves in
theorem SubComponents.parallel_resolve (id : DefinitionId) :
    Parallel (pairing.drafting Component) (resolve resolver id) (resolve other id) := by
  have accepts (component : Component) (id : DefinitionId) :
      Parallel (pairing.drafting Component) (accept component id) (accept component id) := by
    refine .bind (.lift (views.definition id)) fun found => ?_
    split
    · exact .bind (.lift (views.recordError _ _ _)) fun _ => .modifyDraft _
    · exact .modifyDraft _
  refine .bind .draft fun component => views.contextDrafting (fun _ _ _ => rfl) fun context => ?_
  dsimp only
  split
  · exact .modifyDraft _
  · exact .pure _
  · refine .bind (.onPart (resolves _)) fun found => ?_
    cases found with
    | none => exact .modifyDraft _
    | some id => exact accepts component id

theorem Inheritance.parallel_inherit (checksMarkers : Bool) (child parent : Definition) :
    Parallel pairing (inherit checksMarkers child parent) (inherit checksMarkers child parent) :=
  .bind (views.recordAll _) fun _ => .pure _

namespace Parents

theorem parallel_combine (combined : Option Definition) (parents : List DefinitionId) :
    Parallel pairing (combine combined parents) (combine combined parents) := by
  induction parents generalizing combined with
  | nil => exact .pure _
  | cons id rest induction =>
      refine .bind (views.definition id) fun parent => ?_
      cases combined with
      | none => exact induction _
      | some combined =>
          exact .bind (Inheritance.parallel_inherit views _ _ _) fun _ => induction _

theorem parallel_takeOver (inherited : Definition) :
    Parallel (pairing.drafting Definition) (takeOver inherited) (takeOver inherited) :=
  .bind .draft fun _ => .bind (.modifyDraft _) fun _ =>
    .bind (.lift (Inheritance.parallel_inherit views _ _ _)) fun _ => .modifyDraft _

include resolves in
theorem parallel_resolve (makes : pairing.Makes frontEnd load twin) (id : DefinitionId)
    (child : Definition) : Parallel (pairing.drafting Reference) (resolve resolver load id child)
      (resolve other twin id child) := by
  have judges (parent : DefinitionId) : Parallel (pairing.drafting Reference)
      (judge child parent) (judge child parent) := by
    refine .bind .draft fun reference => .bind (.lift (views.definition parent)) fun found => ?_
    split
    · exact .pure _
    · exact .bind (.lift (views.recordError _ _ _)) fun _ => .pure _
  refine .bind (resolves _) fun found => ?_
  cases found with
  | none => exact .pure _
  | some target =>
      refine .bind .draft fun reference =>
        .bind (.lift (makes.copies _ _ _)) fun copied => ?_
      cases copied with
      | notApplicable => exact judges _
      | failed => exact judges _
      | substituted copy =>
          exact .bind (.lift (views.definition copy)) fun _ =>
            .bind (.modifyDraft _) fun _ => judges _

end Parents

end Resolvers

theorem parallel_normalizeBindings :
    Parallel (pairing.drafting Definition) normalizeBindings normalizeBindings := by
  have keeps (firsts : Table Span) (bindings : List Binding) :
      Parallel pairing (Binding.keepFirst firsts bindings)
        (Binding.keepFirst firsts bindings) := by
    induction bindings generalizing firsts with
    | nil => exact .pure _
    | cons binding rest induction =>
        unfold Binding.keepFirst
        split
        · exact .bind (views.records _) fun _ => induction _
        · exact .bind (induction _) fun _ => .pure _
  exact .bind .draft fun definition => views.contextDrafting (fun _ _ _ => rfl) fun context =>
    .bind (.lift (keeps _ _)) fun _ => .modifyDraft _

theorem parallel_checkBindings (extends? : String → String → Bool) :
    Parallel (pairing.drafting Definition) (checkBindings extends?) (checkBindings extends?) := by
  have settles (result : Except (List Diagnostic) Bool) :
      Parallel (pairing.drafting Binding) (settleBinding result) (settleBinding result) := by
    unfold settleBinding
    split
    · exact .modifyDraft _
    · exact .lift (views.recordAll _)
  refine .bind .draft fun definition => views.contextDrafting (fun _ _ _ => rfl) fun context => ?_
  exact .bind (.onPart (.each fun _ => .bind .draft fun _ => settles _)) fun _ => .pure _

theorem parallel_requireBound (name : String) (id : DefinitionId) :
    Parallel pairing (requireBound name id) (requireBound name id) := by
  refine .bind (views.definition id) fun definition => ?_
  split
  · refine views.context (fun _ _ _ => rfl) fun context => ?_
    split
    · exact .pure _
    · exact .fail _
  · exact .pure _

variable (adds : ∀ definition, frontEnd.Parses definition →
  Parallel pairing (Loading.allocate definition) (Loading.allocate definition))

namespace Sources

theorem parallel_store (add : SourceMap → UInt16 × SourceMap) :
    Parallel pairing (store add) (store add) :=
  views.quiet (fun _ => rfl) (fun _ _ _ => rfl)
    ⟨fun _ _ _ => rfl, fun _ => rfl, fun _ => rfl, fun _ => rfl, fun _ => rfl, fun _ => rfl⟩
    fun _ => rfl

include adds in
theorem parallel_find (name : String) :
    Parallel pairing (find frontEnd name) (find frontEnd name) := by
  have accepts {definition : Definition} (parses : frontEnd.Parses definition) :
      Parallel pairing (accept name definition) (accept name definition) := by
    unfold accept
    split
    · exact adds _ parses
    · exact .fail _
  have dumps (text : String) (diagnostic : Diagnostic) :
      Parallel pairing (dumped text diagnostic) (dumped text diagnostic) := by
    refine views.context (fun _ _ _ => rfl) fun context =>
      .bind (parallel_store views _) fun file => ?_
    dsimp only
    split
    · exact .pure _
    · exact .pure _
  refine views.context (fun _ _ _ => rfl) fun context => ?_
  split
  · exact .pure _
  · split
    · unfold parseRegistered
      split
      · exact .fail _
      · rename_i parse isParser
        refine .bind (parallel_store views _) fun file => ?_
        split
        · rename_i definition parsed
          exact accepts ⟨parse, name, _, file, isParser, parsed⟩
        · exact .bind (dumps _ _) fun _ => .fail _
    · unfold parseLocated
      split
      · exact .fail _
      · exact .fail _
      · rename_i parse _ isParser
        refine .bind (parallel_store views _) fun file => ?_
        split
        · rename_i definition parsed
          exact accepts ⟨parse, name, _, file, isParser, parsed⟩
        · exact .fail _

end Sources

namespace FrontEnd

include adds

theorem parallel_runStages_of {name : String}
    (runs : ∀ (stage : Stage) id, Parallel pairing (stage.run frontEnd load name id)
      (stage.run frontEnd twin name id)) (stages : List Stage) :
    Parallel pairing (frontEnd.runStages load stages name)
      (frontEnd.runStages twin stages name) := by
  have makes : Parallel pairing
      (do
        let id ← Sources.find frontEnd name
        stages.forM (Stage.run frontEnd load name id)
        return id)
      (do
        let id ← Sources.find frontEnd name
        stages.forM (Stage.run frontEnd twin name id)
        return id) :=
    .bind (Sources.parallel_find views adds name) fun id =>
      .bind (.forM fun stage _ => runs stage id) fun _ => .pure _
  unfold runStages
  dsimp only
  split
  · exact .bind (views.update ⟨fun _ _ _ => rfl, fun _ => rfl, fun _ => rfl, fun _ => rfl,
      fun _ => rfl, fun _ => rfl⟩ fun _ => rfl) fun _ => makes
  · exact makes

/-- Where the stages run in parallel so do loads, if it does not matter what is loading and what
is loaded. -/
theorem parallel_load_of_stages
    (keeps : ∀ change : Context → Context,
      (∀ context option policy,
        change (context.withPolicies option policy) = (change context).withPolicies option policy) →
      (∀ context, (change context).arena = context.arena) →
      (∀ context, (change context).log = context.log) → pairing.Keeps change)
    (runs : ∀ load : String → Loading DefinitionId,
      (∀ name, Parallel pairing (load name) (load name)) → ∀ (stage : Stage) name id,
        Parallel pairing (stage.run frontEnd load name id) (stage.run frontEnd load name id))
    (name : String) : Parallel pairing (frontEnd.load name) (frontEnd.load name) := by
  have around (name : String) {inner : Loading DefinitionId}
      (agree : Parallel pairing inner inner) :
      Parallel pairing (LoadCache.around name inner) (LoadCache.around name inner) := by
    refine views.context (fun _ _ _ => rfl) fun context => ?_
    split
    · exact .pure _
    · split
      · exact .fail _
      · split
        · exact .fail _
        · refine .bind (Pairing.Keeps.update (keeps _ ?_ ?_ ?_)) fun _ => .bind
            (.ending agree (keeps _ ?_ ?_ ?_)) fun id => .bind
              (Pairing.Keeps.update (keeps _ ?_ ?_ ?_)) fun _ => .pure _
          all_goals
            intros
            rfl
  have loads (levels : Nat) (name : String) :
      Parallel pairing (frontEnd.loadWithin levels name) (frontEnd.loadWithin levels name) := by
    induction levels generalizing name with
    | zero => exact around name (views.context (fun _ _ _ => rfl) fun _ => .fail _)
    | succ levels induction =>
        exact around name (parallel_runStages_of views adds
          (fun stage id => runs _ induction stage name id) Stage.all)
  exact views.context (fun _ _ _ => rfl) fun _ => loads _ name

omit adds in
/-- Where loads run in parallel so do those of all that is requested. -/
theorem parallel_loadRoots
    (loads : ∀ name, Parallel pairing (frontEnd.load name) (frontEnd.load name))
    (names : List String) :
    Parallel (pairing.drafting (List DefinitionId)) (frontEnd.loadRoots names)
      (frontEnd.loadRoots names) := by
  have loadsRoot (name : String) :
      Parallel pairing (frontEnd.loadRoot name) (frontEnd.loadRoot name) := by
    refine .outcome_bind (loads name) (fun _ => rfl) fun result => ?_
    cases result with
    | ok id => exact .pure _
    | error error =>
        cases error with
        | fatal diagnostic => exact .bind (views.records diagnostic) fun _ => .pure _
        | aborted => exact .fail _
        | internal error => exact .fail _
  induction names with
  | nil => exact .pure _
  | cons name rest induction =>
      exact .bind (.lift (loadsRoot name)) fun _ => .bind (.modifyDraft _) fun _ => induction

end FrontEnd

end Viewing

/-! ## The stages -/

variable (watches : pairing.Watches)
include watches

namespace AnnotationRegistry

variable {registry : AnnotationRegistry}

theorem parallel_checkDefinition (id : DefinitionId) :
    Parallel pairing (registry.checkDefinition id) (registry.checkDefinition id) := by
  refine .bind (watches.views.definition id) fun definition => ?_
  split
  · exact watches.revise id (.forM fun path _ => parallel_checkElement watches.views path)
  · exact .pure _

variable (runs : registry.RunsParallel pairing)
include runs

theorem parallel_processStored (phase : Phase) (id : DefinitionId) :
    Parallel pairing (registry.processStored phase id) (registry.processStored phase id) := by
  refine .bind (watches.views.definition id) fun definition => ?_
  split
  · exact .bind (parallel_processDefinition runs phase _) fun _ => watches.replace id _
  · exact .pure _

theorem parallel_processStoredSubComponents (id : DefinitionId) :
    Parallel pairing (registry.processStoredSubComponents id)
      (registry.processStoredSubComponents id) := by
  refine .bind (watches.views.definition id) fun definition =>
    watches.views.context (fun _ _ _ => rfl) fun context => ?_
  split
  · exact .pure _
  · exact .bind (parallel_processSubComponents watches.views runs _ _ _) fun _ => watches.replace id _

end AnnotationRegistry

theorem parallel_settleAttributes (id : DefinitionId) :
    Parallel pairing (settleAttributes id) (settleAttributes id) := by
  refine .bind (watches.views.definition id) fun definition => ?_
  split
  · exact watches.revise id
      (.bind (.onPart (.each fun _ => Attribute.parallel_settle watches.views _)) fun _ => .pure _)
  · exact .pure _

section Resolvers

variable (resolves : Resolver.Pairs pairing resolver other)
include resolves

theorem TypeParameters.parallel_check (id : DefinitionId) :
    Parallel pairing (check resolver id) (check other id) := by
  refine .bind (watches.views.definition id) fun definition => ?_
  split
  · exact watches.revise id (.bind (.lift (.forM fun _ _ => watches.views.recordError _ _ _)) fun _ =>
      .bind (.onPart (.each fun _ => parallel_checkConformance watches.views resolves id))
        fun _ => .forM fun component _ => .bind .draft fun _ =>
          .lift (parallel_checkPlaceholder watches.views _ component))
  · exact .pure _

theorem SubComponents.parallel_resolveAll (id : DefinitionId) :
    Parallel pairing (resolveAll resolver id) (resolveAll other id) := by
  refine .bind (watches.views.definition id) fun definition => ?_
  split
  · exact watches.revise id (.bind (.lift (.forM fun _ _ => watches.views.recordError _ _ _)) fun _ =>
      .bind (.onPart (.each fun _ => parallel_resolve watches.views resolves id))
        fun _ => .pure _)
  · exact .pure _

theorem Parents.parallel_merge (makes : pairing.Makes frontEnd load twin)
    (id : DefinitionId) : Parallel pairing (merge resolver load id) (merge other twin id) := by
  refine .bind (watches.views.definition id) fun definition => ?_
  dsimp only
  split
  · exact .pure _
  · split
    · exact watches.replace id _
    · refine watches.revise id
        (.bind (.onPart (.each fun _ =>
          parallel_resolve watches.views resolves makes id definition))
          fun found => .bind (.lift (parallel_combine watches.views _ _))
            fun inherited => ?_)
      cases inherited with
      | none => exact .modifyDraft _
      | some inherited =>
          exact .bind (parallel_takeOver watches.views inherited) fun _ => .modifyDraft _

end Resolvers

theorem parallel_delegateInterfaces (id : DefinitionId) :
    Parallel pairing (delegateInterfaces id) (delegateInterfaces id) := by
  refine .bind (watches.views.definition id) fun definition => ?_
  split
  · split
    · exact .pure _
    · exact .bind (.ofExcept _) fun _ => watches.replace id _
  · exact .pure _

theorem parallel_completeMembrane (id : DefinitionId) :
    Parallel pairing (completeMembrane id) (completeMembrane id) := by
  refine .bind (watches.views.definition id) fun definition => ?_
  split
  · exact .fail _
  · exact watches.replace id _

theorem parallel_onBindings {revision : Revising Definition Unit}
    (revises : Parallel (pairing.drafting Definition) revision revision) (id : DefinitionId) :
    Parallel pairing
      (do if !(← Loading.definition id).bindings.isEmpty then Loading.revise id revision)
      (do if !(← Loading.definition id).bindings.isEmpty then Loading.revise id revision) := by
  refine .bind (watches.views.definition id) fun definition => ?_
  split
  · exact watches.revise id revises
  · exact .pure _

/-! ## The stages together -/

variable (loads : ∀ name, Parallel pairing (load name) (twin name))
  (runs : frontEnd.registry.RunsParallel pairing)
include loads runs

theorem Stage.parallel_run (stage : Stage) (name : String) (id : DefinitionId) :
    Parallel pairing (stage.run frontEnd load name id) (stage.run frontEnd twin name id) := by
  have makes := watches.makes loads runs
  have resolves := Resolver.pairs_full watches.views loads makes
  cases stage with
  | annotations => exact AnnotationRegistry.parallel_checkDefinition watches id
  | process phase => exact AnnotationRegistry.parallel_processStored watches runs phase id
  | typeParameters => exact TypeParameters.parallel_check watches resolves id
  | subComponents => exact SubComponents.parallel_resolveAll watches resolves id
  | parents => exact Parents.parallel_merge watches resolves makes id
  | subComponentAnnotations =>
      exact AnnotationRegistry.parallel_processStoredSubComponents watches runs id
  | interfaces => exact parallel_checkInterfaces watches.views id
  | delegation => exact parallel_delegateInterfaces watches id
  | membrane => exact parallel_completeMembrane watches id
  | expandBindings =>
      exact parallel_onBindings watches (parallel_normalizeBindings watches.views) id
  | checkBindings =>
      exact parallel_onBindings watches (parallel_checkBindings watches.views _) id
  | coverage => exact parallel_requireBound watches.views name id
  | parameters => exact parallel_checkParameters watches.views id
  | attributes => exact parallel_settleAttributes watches id

theorem FrontEnd.parallel_runStages (stages : List Stage) (name : String) :
    Parallel pairing (frontEnd.runStages load stages name)
      (frontEnd.runStages twin stages name) :=
  parallel_runStages_of watches.views (fun definition _ => watches.allocate definition)
    (fun stage id => Stage.parallel_run watches loads runs stage name id) stages

end Adl
