import Adl.Proofs.Annotation.Showing
import Adl.Proofs.Loading.Retention

namespace Adl

open Step Context

/-! What is decorated as a singleton in a program. Loading upholds for all definitions that there
are, however it ends, that they show what they are decorated as; so what their parts are decorated
as spreads to them. -/

/-! ## Runs that uphold a property -/

namespace Pairing

/-- A run beside itself in which a property of the state is upheld. -/
def upholding {State : Type} (Holds : State → Prop) : Pairing State where
  Related left right := left = right ∧ Holds left
  Stopped _ _ := False

section States

variable {State α β : Type} {Holds : State → Prop}

theorem upholding_iff {step : Step State α} :
    Parallel (upholding Holds) step step ↔ ∀ state, Holds state → Holds (step state).2 := by
  constructor
  · intro parallel state holds
    exact ((parallel.along state state ⟨rfl, holds⟩).resolve_right And.right).2.2
  · intro upholds
    constructor
    · rintro state _ ⟨rfl, holds⟩
      exact .inl ⟨rfl, rfl, upholds state holds⟩
    · exact fun _ _ => id

/-- Steps in sequence, with what is known of the value that the first one gives. -/
theorem upholding_bind (Given : β → Prop) {first : Step State β} {next : β → Step State α}
    (begins : ∀ state, Holds state →
      Holds (first state).2 ∧ ∀ value reached, first state = (.ok value, reached) → Given value)
    (continues : ∀ value, Given value → Parallel (upholding Holds) (next value) (next value)) :
    Parallel (upholding Holds) (first >>= next) (first >>= next) := by
  refine upholding_iff.mpr fun state holds => ?_
  obtain ⟨holdsAfter, given⟩ := begins state holds
  rw [bind_apply]
  rcases outcome : first state with ⟨error | value, reached⟩
  · rw [outcome] at holdsAfter
    exact holdsAfter
  · rw [outcome] at holdsAfter
    exact upholding_iff.mp (continues value (given value reached outcome)) reached holdsAfter

end States

/-- A run in which a property is upheld for all definitions. -/
def throughout (Holds : Definition → Prop) : Pairing Context :=
  upholding fun context => ∀ id, Holds (context.definition id)

/-- The same where one more definition is revised. -/
def throughoutDraft (Holds : Definition → Prop) : Pairing (Context × Definition) :=
  upholding fun pair => (∀ id, Holds (pair.1.definition id)) ∧ Holds pair.2

variable {Holds : Definition → Prop} {α β Part : Type}

theorem keeps_throughout {change : Context → Context}
    (arena : ∀ context, (change context).arena = context.arena) : (throughout Holds).Keeps change where
  related := by
    rintro context _ ⟨rfl, all⟩
    refine ⟨rfl, fun id => ?_⟩
    rw [Context.definition, arena]
    exact all id
  stoppedLeft _ _ := id
  stoppedRight _ _ := id

theorem views_throughout : (throughout Holds).Views where
  blind := by
    rintro context _ ⟨rfl, -⟩
    exact ⟨context.options.errorPolicy, context.log.policy, rfl⟩
  keeps _ _ arena := keeps_throughout arena
  records diagnostic := upholding_iff.mpr fun context all id =>
    (Loading.agree_record diagnostic).leads.definition id ▸ all id

theorem throughout_bind {Given : β → Prop} {first : Loading β} {next : β → Loading α}
    (begins : ∀ context, (∀ id, Holds (context.definition id)) →
      Agree reporting context first first fun value _ => Given value)
    (continues : ∀ value, Given value → Parallel (throughout Holds) (next value) (next value)) :
    Parallel (throughout Holds) (first >>= next) (first >>= next) := by
  refine upholding_bind Given (fun context all => ?_) continues
  have agree := begins context all
  exact ⟨fun id => agree.leads.definition id ▸ all id, fun _ _ ends => (agree.of_ok ends).2.2⟩

theorem throughout_definition (id : DefinitionId) {next : Definition → Loading α}
    (continues : ∀ definition, Holds definition →
      Parallel (throughout Holds) (next definition) (next definition)) :
    Parallel (throughout Holds) (Loading.definition id >>= next) (Loading.definition id >>= next) :=
  throughout_bind (fun context all => .run rfl trivial (reporting.refl context) (all id)) continues

theorem throughout_allocate {added : Definition} (holds : Holds added) :
    Parallel (throughout Holds) (Loading.allocate added) (Loading.allocate added) :=
  upholding_iff.mpr fun _ all => forall_push Holds all holds

theorem throughout_register (name : String) {added : Definition} (holds : Holds added) :
    Parallel (throughout Holds) (Loading.register name added) (Loading.register name added) :=
  upholding_iff.mpr fun _ all => forall_push Holds all holds

/-! ### Drafts -/

theorem throughoutDraft_lift {step : Loading α} (parallel : Parallel (throughout Holds) step step) :
    Parallel (throughoutDraft Holds) (liftM step : Revising Definition α) (liftM step) :=
  upholding_iff.mpr fun pair ⟨all, holds⟩ => ⟨upholding_iff.mp parallel pair.1 all, holds⟩

theorem throughoutDraft_draft : Parallel (throughoutDraft Holds) Drafting.draft Drafting.draft :=
  upholding_iff.mpr fun _ => id

theorem throughoutDraft_modifyDraft {change : Definition → Definition}
    (changes : ∀ draft, Holds draft → Holds (change draft)) :
    Parallel (throughoutDraft Holds) (Drafting.modifyDraft change) (Drafting.modifyDraft change) :=
  upholding_iff.mpr fun _ => And.imp_right (changes _)

theorem throughoutDraft_onPart {get : Definition → Part} {set : Part → Definition → Definition}
    {step : Revising Part α} (parallel : Parallel ((throughout Holds).drafting Part) step step)
    (sets : ∀ context draft, Holds draft → Holds (set (step (context, get draft)).2.2 draft)) :
    Parallel (throughoutDraft Holds) (Drafting.onPart get set step) (Drafting.onPart get set step) := by
  refine upholding_iff.mpr fun ⟨context, draft⟩ ⟨all, holds⟩ => ⟨?_, sets context draft holds⟩
  exact ((parallel.along (context, get draft) (context, get draft) ⟨⟨rfl, all⟩, rfl⟩).resolve_right
    And.right).2.1.2

theorem throughout_revise {revision : Revising Definition Unit}
    (parallel : Parallel (throughoutDraft Holds) revision revision) (id : DefinitionId) :
    Parallel (throughout Holds) (Loading.revise id revision) (Loading.revise id revision) := by
  refine upholding_iff.mpr fun context all => ?_
  have ⟨allAfter, holds⟩ := upholding_iff.mp parallel (context, context.definition id) ⟨all, all id⟩
  exact forall_replace allAfter holds

end Pairing

open Pairing

/-! ## Copies and instances -/

section Made

variable {Holds : Definition → Prop} {load : String → Loading DefinitionId}
  (loads : ∀ name, Parallel (throughout Holds) (load name) (load name))
include loads

theorem throughout_substituteValues
    (copies : ∀ (definition : Definition) name bindings, Holds definition →
      Holds (definition.substitute name bindings))
    (reference : Reference) (target : DefinitionId) (allowReferences : Bool) :
    Parallel (throughout Holds) (substituteValues load reference target allowReferences)
      (substituteValues load reference target allowReferences) := by
  refine throughout_definition target fun definition holds => ?_
  split
  · exact .pure _
  · rename_i bindings _
    have continues : Parallel (throughout Holds)
        (Loading.orRecorded (load (Definition.substitutedName definition.name bindings))
          reference.span >>= Substitution.ofLoaded)
        (Loading.orRecorded (load (Definition.substitutedName definition.name bindings))
          reference.span >>= Substitution.ofLoaded) := by
      refine .bind (views_throughout.orRecorded (loads _) _) fun found => ?_
      cases found <;> exact .pure _
    refine views_throughout.context (fun _ _ _ => rfl) fun context => ?_
    split
    · exact .bind (throughout_register _ (copies definition _ bindings holds)) fun _ => continues
    · exact continues

theorem InstanceRequest.throughout_load (request : InstanceRequest) {registry : AnnotationRegistry}
    (builds : ∀ (context : Context) name, (∀ id, Holds (context.definition id)) →
      Agree reporting context (request.build registry layers name)
        (request.build registry layers name) fun made _ => Holds made) :
    Parallel (throughout Holds) (request.load registry load) (request.load registry load) := by
  refine views_throughout.context (fun _ _ _ => rfl) fun context => ?_
  dsimp only
  split
  · exact throughout_bind (fun reached all => builds reached _ all) fun made holds =>
      .bind (throughout_register _ holds) fun _ => loads _
  · exact loads _

end Made

namespace InstanceRequest

variable {context : Context} {request : InstanceRequest} {definition : Definition} {name : String}

/-- Parameters are taken over without a mark. -/
theorem agree_exposeParameters_marked :
    Agree reporting context (request.exposeParameters name definition)
      (request.exposeParameters name definition)
      fun changed _ => definition.MarkedAlike changed := by
  have ensured (made : Definition) (parameter : String) :
      made.MarkedAlike (made.ensureParameter parameter) := by
    unfold Definition.ensureParameter
    split <;> exact ⟨rfl, rfl⟩
  refine .read rfl (.foldlM (fun (made : Definition) _ => definition.MarkedAlike made) trivial
    (.refl _) fun placeholder _ made reached _ alike => ?_)
  unfold exposeComponent
  split
  · exact .pure trivial alike
  · split
    · refine .read rfl (.foldlM (fun (made : Definition) _ => definition.MarkedAlike made) trivial
        alike fun parameter _ made reached _ alike => .read rfl ?_)
      have exposed (hoisted : String) := alike.trans (ensured made hoisted)
      split
      · exact .bind (Loading.agree_infer _ _ _).forget fun _ _ _ _ _ =>
          .pure trivial ⟨(exposed _).annotations, (exposed _).singleton⟩
      · exact .pure trivial ⟨(exposed _).annotations, (exposed _).singleton⟩
    · exact .pure trivial alike

/-- What is made of definitions that show what they are decorated as does so too. -/
theorem agree_build_shows (all : ∀ id, (context.definition id).ShowsSingleton) (name : String) :
    Agree reporting context (request.build .predefined layers name)
      (request.build .predefined layers name) fun made _ => made.ShowsSingleton := by
  refine .read rfl ?_
  unfold layers
  rw [List.foldlM_cons]
  -- parameters are exposed in the bare instance, and leave no mark in it
  have bare : (request.bare context name).ShowsSingleton := .bare (all _) name
  refine .bind ((agree_exposeParameters rfl (.refl (request.bare context name))).and
    agree_exposeParameters_marked) ?_
  rintro exposed reached - reports ⟨edits, alike⟩
  have allReached (id : DefinitionId) : (reached.definition id).ShowsSingleton :=
    reports.definition id ▸ all id
  rw [List.foldlM_cons]
  refine .bind (.read rfl (.bind (AnnotationRegistry.agree_processSubComponents_shows allReached
    (bare.edits_alike edits alike.singleton) (.inr rfl) _) ?_)) fun _ _ _ _ shows => .pure trivial shows
  exact fun _ later _ _ shows => AnnotationRegistry.agree_processDefinition_shows shows later

end InstanceRequest

/-! ## Stages -/

section Stages

variable {load : String → Loading DefinitionId} {resolver : Resolver}

theorem TypeParameters.shows_check
    (resolves : Resolver.Pairs (throughout Definition.ShowsSingleton) resolver resolver)
    (id : DefinitionId) :
    Parallel (throughout Definition.ShowsSingleton) (check resolver id) (check resolver id) := by
  refine .bind (views_throughout.definition id) fun definition => ?_
  split
  · exact throughout_revise (.bind
      (throughoutDraft_lift (.forM fun _ _ => views_throughout.recordError _ _ _)) fun _ => .bind
        (throughoutDraft_onPart (.each fun _ => parallel_checkConformance views_throughout resolves id)
          fun _ draft shows => ⟨{ shows.everywhere with }, shows.decorated⟩) fun _ =>
        .forM fun component _ => .bind throughoutDraft_draft fun _ =>
          throughoutDraft_lift (parallel_checkPlaceholder views_throughout _ component)) id
  · exact .pure _

theorem SubComponents.shows_resolveAll
    (resolves : Resolver.Pairs (throughout Definition.ShowsSingleton) resolver resolver)
    (id : DefinitionId) :
    Parallel (throughout Definition.ShowsSingleton) (resolveAll resolver id) (resolveAll resolver id) := by
  have preserves : Drafting.Preserves Component.annotations (resolve resolver id) :=
    preserves_resolve (fun _ _ _ => rfl) resolver id
  refine .bind (views_throughout.definition id) fun definition => ?_
  split
  · exact throughout_revise (.bind
      (throughoutDraft_lift (.forM fun _ _ => views_throughout.recordError _ _ _)) fun _ => .bind
        (throughoutDraft_onPart (.each fun _ => parallel_resolve views_throughout resolves id)
          fun context draft shows => shows.components
            (Drafting.Preserves.each (fun _ => preserves) context draft.components)) fun _ =>
              .pure _) id
  · exact .pure _

namespace Parents

/-- What parents hand on together has what survives. -/
theorem agree_combine_everywhere {Holds : Target → Annotations → Prop}
    (survives : Annotations.Survives Holds) {context : Context}
    (all : ∀ id, (context.definition id).Everywhere Holds) {combined : Option Definition}
    (handed : ∀ definition ∈ combined, definition.Everywhere Holds) (parents : List DefinitionId) :
    Agree reporting context (combine combined parents) (combine combined parents)
      fun inherited _ => ∀ definition ∈ inherited, definition.Everywhere Holds := by
  induction parents generalizing combined context with
  | nil => exact .pure trivial handed
  | cons id rest induction =>
      refine .read rfl ?_
      have inheritable := (all id).inheritable survives
      cases combined with
      | none => exact induction all fun definition member => Option.mem_some.mp member ▸ inheritable
      | some combined =>
          have merges : Agree reporting context
              (Inheritance.inherit false (Inheritance.inheritable (context.definition id)) combined)
              (Inheritance.inherit false (Inheritance.inheritable (context.definition id)) combined)
              fun merged _ => merged =
                Inheritance.merged (Inheritance.inheritable (context.definition id)) combined :=
            .bind (Loading.agree_recordAll _) fun _ _ _ _ _ => .pure trivial rfl
          refine .bind merges ?_
          rintro _ reached - reports rfl
          refine induction (fun other => reports.definition other ▸ all other) ?_
          intro definition member
          exact Option.mem_some.mp member ▸ inheritable.merged survives (handed combined rfl)

theorem shows_takeOver {inherited : Definition}
    (handed : inherited.Everywhere Annotations.ShowsSingleton) :
    Parallel (throughoutDraft Definition.ShowsSingleton) (takeOver inherited) (takeOver inherited) := by
  refine upholding_iff.mpr fun ⟨context, own⟩ ⟨all, shows⟩ => ?_
  have reports : Reports context
      (Loading.recordAll (Inheritance.problems own inherited true) context).2 :=
    (Loading.agree_recordAll _).leads
  rw [takeOver_apply]
  rcases outcome : Loading.recordAll (Inheritance.problems own inherited true) context with
    ⟨error | value, reached⟩
  · rw [outcome] at reports
    exact ⟨fun id => reports.definition id ▸ all id, .blank false⟩
  · rw [outcome] at reports
    exact ⟨fun id => reports.definition id ▸ all id, shows.merged handed⟩

theorem shows_merge {frontEnd : FrontEnd}
    (resolves : Resolver.Pairs (throughout Definition.ShowsSingleton) resolver resolver)
    (makes : (throughout Definition.ShowsSingleton).Makes frontEnd load load) (id : DefinitionId) :
    Parallel (throughout Definition.ShowsSingleton) (merge resolver load id) (merge resolver load id) := by
  have marked (definition : Definition) (shows : definition.ShowsSingleton) :
      (markMerged definition).ShowsSingleton := ⟨{ shows.everywhere with }, shows.decorated⟩
  refine throughout_definition id fun definition shows => ?_
  dsimp only
  split
  · exact .pure _
  · split
    · exact upholding_iff.mpr fun _ all => forall_replace all (marked definition shows)
    · refine throughout_revise (.bind (throughoutDraft_onPart (.each fun _ =>
        parallel_resolve views_throughout resolves makes id definition)
          fun _ draft shows => ⟨{ shows.everywhere with }, shows.decorated⟩) fun found => ?_) id
      -- what the parents hand on is known only from the combining step, not from the states
      refine upholding_bind (fun inherited => ∀ definition ∈ inherited,
        definition.Everywhere Annotations.ShowsSingleton) (fun pair ⟨all, holds⟩ => ?_)
          fun inherited handed => ?_
      · have nothing : ∀ definition ∈ (none : Option Definition),
            definition.Everywhere Annotations.ShowsSingleton := nofun
        have agree := agree_combine_everywhere Annotations.survives_showsSingleton
          (fun id => (all id).everywhere) nothing (found.filterMap fun parent => parent)
        refine ⟨⟨fun id => agree.leads.definition id ▸ all id, holds⟩, ?_⟩
        rintro value ⟨reached, draft⟩ ends
        exact (agree.of_ok (Drafting.ok_of_lift ends).2).2.2
      · cases inherited with
        | none => exact throughoutDraft_modifyDraft marked
        | some inherited =>
            exact .bind (shows_takeOver (handed inherited rfl)) fun _ =>
              throughoutDraft_modifyDraft marked

end Parents

end Stages

/-! ## Loads and compilations -/

section Pipeline

variable {frontEnd : FrontEnd} (predefined : frontEnd.registry = .predefined)
include predefined

theorem Stage.shows_run {load : String → Loading DefinitionId}
    (loads : ∀ name, Parallel (throughout Definition.ShowsSingleton) (load name) (load name))
    (stage : Stage) (name : String) (id : DefinitionId) :
    Parallel (throughout Definition.ShowsSingleton) (stage.run frontEnd load name id)
      (stage.run frontEnd load name id) := by
  have views : (throughout Definition.ShowsSingleton).Views := views_throughout
  have harmless : frontEnd.registry.IsHarmless :=
    predefined ▸ AnnotationRegistry.isHarmless_predefined
  have makes : (throughout Definition.ShowsSingleton).Makes frontEnd load load :=
    { copies := throughout_substituteValues loads fun _ name bindings shows => shows.copy name bindings
      instances := fun request => request.throughout_load loads fun _ name all =>
        predefined ▸ InstanceRequest.agree_build_shows all name }
  have resolves := Resolver.pairs_full views loads makes
  have rewrites {step : Loading Unit}
      (rewrites : ∀ context : Context, (∀ id, (context.definition id).ShowsSingleton) →
        Loading.Rewrites context id Definition.ShowsSingleton step) :
      Parallel (throughout Definition.ShowsSingleton) step step :=
    upholding_iff.mpr fun context all => (rewrites context all).forall_definition all
  have revises {step : Loading Unit} (alike : ∀ context : Context,
      Loading.Rewrites context id (context.definition id).EditsAlike step) :
      Parallel (throughout Definition.ShowsSingleton) step step :=
    rewrites fun context all => (alike context).mono fun _ alike =>
      (all id).edits_alike alike.edits alike.singleton
  cases stage with
  | annotations => exact revises fun _ => AnnotationRegistry.rewrites_checkDefinition harmless
  | process phase =>
      exact rewrites fun context all => AnnotationRegistry.rewrites_processStored
        (predefined ▸ AnnotationRegistry.agree_processDefinition_shows (all id) context)
  | typeParameters => exact TypeParameters.shows_check resolves id
  | subComponents => exact SubComponents.shows_resolveAll resolves id
  | parents => exact Parents.shows_merge resolves makes id
  | subComponentAnnotations =>
      exact rewrites fun _ all => AnnotationRegistry.rewrites_processStoredSubComponents fun _ =>
        predefined ▸ AnnotationRegistry.agree_processSubComponents_shows all (all id) (.inl rfl) _
  | interfaces => exact parallel_checkInterfaces views id
  | delegation => exact revises fun context => rewrites_delegateInterfaces context id
  | membrane => exact revises fun context => rewrites_completeMembrane context id
  | expandBindings => exact revises fun context => rewrites_normalizeBindings context id
  | checkBindings => exact revises fun context => rewrites_checkBindings context id _
  | coverage => exact parallel_requireBound views name id
  | parameters => exact parallel_checkParameters views id
  | attributes => exact revises fun context => rewrites_settleAttributes context id

namespace FrontEnd

variable (parses : ∀ definition, frontEnd.Parses definition → definition.ShowsSingleton)
include parses

theorem shows_load (name : String) :
    Parallel (throughout Definition.ShowsSingleton) (frontEnd.load name) (frontEnd.load name) :=
  parallel_load_of_stages views_throughout
    (fun definition parsed => throughout_allocate (parses definition parsed))
    (fun _ _ arena _ => keeps_throughout arena) (fun _ => Stage.shows_run predefined) name

/-- After a compilation all definitions show what they are decorated as. -/
theorem showsSingleton_of_compile {options : Options} {definitions : List Definition}
    {roots : List String} {compiled : Compiled}
    (registered : ∀ definition ∈ definitions, definition.ShowsSingleton)
    (succeeds : (frontEnd.compile (.ofDefinitions options definitions) roots).outcome = .ok compiled)
    (id : DefinitionId) : (compiled.context.definition id).ShowsSingleton := by
  have start (id : DefinitionId) :
      ((Context.ofDefinitions options definitions).definition id).ShowsSingleton := by
    rcases definition_ofDefinitions options definitions id with member | absent
    · exact registered _ member
    · exact absent ▸ .default
  have ran := (parallel_loadRoots views_throughout (shows_load predefined parses) roots).along
    (.ofDefinitions options definitions, []) (.ofDefinitions options definitions, [])
    ⟨⟨rfl, start⟩, rfl⟩
  unfold compile at succeeds
  rcases outcome : frontEnd.loadRoots roots (.ofDefinitions options definitions, []) with
    ⟨ended, reached, found⟩
  rw [outcome] at succeeds ran
  dsimp only at succeeds
  split at succeeds
  · cases succeeds
    exact (ran.resolve_right And.right).2.1.2 id
  · cases succeeds

end FrontEnd

end Pipeline

namespace FrontEnd

/-- Where definitions show what they are decorated as, each that is loaded and has a singleton for a
part is decorated as a singleton, and so are all definitions on the way to a singleton. -/
theorem decorations_spread (frontEnd : FrontEnd) (options : Options) (definitions : List Definition)
    (roots : List String) (predefined : frontEnd.registry = .predefined)
    (plain : frontEnd.ParsesPlainly)
    (undecorated : ∀ definition ∈ definitions, ∀ component ∈ definition.components,
      component.resolved = none)
    (shows : ∀ definition, definition ∈ definitions ∨ frontEnd.Parses definition →
      definition.ShowsSingleton)
    {compiled : Compiled}
    (succeeds : (frontEnd.compile (.ofDefinitions options definitions) roots).outcome =
      .ok compiled) :
    (∀ id index part, compiled.context.Loaded id →
        (compiled.context.definition id).part? index = some part →
          (compiled.context.definition part).decorations.singleton = true →
            (compiled.context.definition id).decorations.singleton = true) ∧
      ∀ root path chain last, compiled.context.Loaded root →
        compiled.context.along? root path = some chain → chain.getLast? = some last →
          (compiled.context.definition last).decorations.singleton = true →
            ∀ id ∈ chain, (compiled.context.definition id).decorations.singleton = true := by
  have shown (id : DefinitionId) : (compiled.context.definition id).ShowsSingleton :=
    showsSingleton_of_compile predefined (fun definition parsed => shows definition (.inr parsed))
      (fun definition member => shows definition (.inl member)) succeeds id
  obtain ⟨parts, once⟩ := holdsSingletonsOnce_of_compile predefined plain undecorated
    (fun definition declared => Definition.isOrdinary_iff.mpr
      ((shows definition declared).everywhere.mono fun _ _ shows => shows.predefined)) succeeds
  constructor
  · intro id index part loaded isPart decorated
    exact (once id loaded).decorated
      ((once id loaded).spreads index part isPart ((shown part).decorated decorated))
  · intro root path chain last loaded along ends decorated id member
    have onTheWay := singletons_along parts once loaded along ends ((shown last).decorated decorated)
    exact (onTheWay.1 id member).2

/-- A composite of a copy of a primitive, which extends another one that is annotated. -/
def handing (typeName : String) : List Definition :=
  [ { Definition.ofKind "a.P" .primitive with
      annotations := ⟨[.ofType typeName], []⟩
      sources := [.ofPath "p.c"] },
    { Definition.ofKind "a.D" .primitive with
      capabilities := DefinitionKind.primitive.capabilities.insert .formalParameters
      annotations := ⟨[.ofType "DumpAST"], []⟩
      parents := [.ofName "a.P"]
      parameters := [⟨"size", .generated⟩]
      attributes := [⟨"n", "int", some (.reference "size"), .generated, .none⟩]
      sources := [.ofPath "d.c"] },
    { Definition.ofKind "a.C" .composite with
      components := [⟨"d", some { Reference.ofName "a.D" with
        arguments := [⟨none, .number 1, .generated⟩] }, none, .generated, .none, none, false⟩] } ]

/-- The composite is decorated since the copy is. -/
theorem decoration_handed_on :
    ∃ compiled, (registeredOnly.compile (.ofDefinitions .default (handing "Singleton"))
        ["a.C"]).outcome = .ok compiled ∧
      (compiled.context.definition 2).name = "a.C" ∧
      (compiled.context.definition 3).name = "a.D(size=1)" ∧
      (compiled.context.definition 2).part? 0 = some 3 ∧
      (compiled.context.definition 2).decorations.singleton = true := by
  have succeeds : (registeredOnly.compile (.ofDefinitions .default (handing "Singleton"))
      ["a.C"]).outcome.toOption.any (fun compiled => compiled.context.cache.find? "a.C" = some 2 ∧
        (compiled.context.definition 2).name = "a.C" ∧
        (compiled.context.definition 3).name = "a.D(size=1)" ∧
        (compiled.context.definition 2).part? 0 = some 3 ∧
        (compiled.context.definition 3).decorations.singleton = true) = true := by
    decide +kernel
  obtain ⟨compiled, outcome, found, name, copyName, isPart, decorated⟩ := exists_ok_of_any succeeds
  refine ⟨compiled, outcome, name, copyName, isPart, ?_⟩
  refine (decorations_spread registeredOnly .default (handing "Singleton") ["a.C"] rfl
    parsesPlainly_registeredOnly (by decide) (fun definition declared => ?_) outcome).1 2 0 3
      ⟨"a.C", found⟩ isPart decorated
  rcases declared with member | ⟨_, _, _, _, isParser, -⟩
  · have plain : ∀ definition ∈ handing "Singleton", definition.IsPlainlyAnnotated ∧
        definition.decorations.singleton = false := by decide +kernel
    obtain ⟨isPlain, bare⟩ := plain definition member
    exact .of_plain isPlain fun decorated => nomatch bare.symm.trans decorated
  · exact nomatch isParser

/-- Where the annotation is written with a package the copy is decorated still, but has lost it, and
the composite is not decorated. -/
theorem decoration_not_handed_on :
    ∃ compiled, (registeredOnly.compile (.ofDefinitions .default (handing "x.Singleton"))
        ["a.C"]).outcome = .ok compiled ∧
      compiled.context.cache.find? "a.C" = some 2 ∧
      (compiled.context.definition 2).part? 0 = some 3 ∧
      (compiled.context.definition 3).decorations.singleton = true ∧
      (compiled.context.definition 3).annotations.typed = [.dump] ∧
      (compiled.context.definition 2).decorations.singleton = false :=
  exists_ok_of_any (by decide +kernel)

end FrontEnd

end Adl
