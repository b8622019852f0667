import Adl.Compilation
import Adl.Proofs.Loading.Pipeline

namespace Adl

open Step Context

/-! The cache of definitions over a whole compilation. Once a name is loaded it stays
loaded, with the same definition in the same slot, whatever is asked for later. -/

/-- What can be asked of a compilation. -/
inductive Request where
  | load (name : String)
  | resolve (scope : Option DefinitionId) (reference : Reference)
  | instantiate (request : InstanceRequest)

namespace Request

/-- Answers a request with the given loader. -/
def run (frontEnd : FrontEnd) (load : String → Loading DefinitionId) :
    Request → Loading (Option DefinitionId)
  | .load name => do return some (← load name)
  | .resolve scope reference => fun context =>
      let (result, (context, _)) := Resolver.full frontEnd load scope (context, reference)
      (result, context)
  | .instantiate request => do return some (← request.load frontEnd.registry load)

end Request

namespace FrontEnd

/-- The context after a list of requests, each answered whatever came of those before. -/
def after (frontEnd : FrontEnd) (requests : List Request) (context : Context) : Context :=
  requests.foldl (fun context request => (request.run frontEnd frontEnd.load context).2) context

/-- Loading where the loads that stages ask for are guarded. -/
noncomputable def guardedLoad (frontEnd : FrontEnd) (violation : LoadError) (name : String) :
    Loading DefinitionId := do
  frontEnd.loadGuarded violation (levelsLeft (← Loading.context)) name

end FrontEnd

variable {strict : Prop} {frontEnd : FrontEnd} {context : Context} {Extra : Context → Prop}

/-! ## Registered definitions -/

/-- Contexts in which nothing happened but that definitions were registered are sound. -/
theorem Context.sound_ofOptions (options : Options) : (ofOptions options).Sound strict where
  keys := .nil
  registered_lt _ _ found := nomatch found
  registered_unique _ _ _ found := nomatch found
  registered_names _ _ found := nomatch found
  loaded_lt _ _ found := nomatch found
  loaded_unique _ _ _ found := nomatch found
  loaded_names _ _ found := nomatch found
  loaded_registered _ _ _ found := nomatch found
  remembered _ _ found := nomatch found
  merged _ _ found := nomatch found
  keyed _ _ _ _ found := nomatch found
  spelled _ _ _ _ found := nomatch found
  once _ _ _ _ found := nomatch found
  linked _ _ within := absurd within (Nat.not_lt_zero _)
  complete _ _ _ found := nomatch found
  ordered _ _ _ _ found := nomatch found

theorem Context.sound_ofDefinitions (options : Options) (definitions : List Definition)
    (undecorated : strict → ∀ definition ∈ definitions,
      ∀ component ∈ definition.components, component.resolved = none) :
    (ofDefinitions options definitions).Sound strict := by
  have registered : ∀ (definitions : List Definition) (context : Context),
      context.Sound strict →
      (strict → ∀ definition ∈ definitions,
        ∀ component ∈ definition.components, component.resolved = none) →
      (definitions.foldl (fun context definition =>
        (context.register definition.name definition).2) context).Sound strict := by
    intro definitions
    induction definitions with
    | nil => exact fun _ sound _ => sound
    | cons definition rest induction =>
        intro context sound undecorated
        refine induction _ (sound.register rfl fun isStrict => ?_) fun isStrict other member =>
          undecorated isStrict other (List.mem_cons_of_mem _ member)
        exact Sources.linked_of_undecorated (undecorated isStrict definition List.mem_cons_self)
  exact registered definitions _ (sound_ofOptions options) undecorated

theorem Context.policy_ofDefinitions (options : Options) (definitions : List Definition) :
    (ofDefinitions options definitions).log.policy = options.errorPolicy := by
  have kept : ∀ (definitions : List Definition) (context : Context),
      (definitions.foldl (fun context definition =>
        (context.register definition.name definition).2) context).log = context.log := by
    intro definitions
    induction definitions with
    | nil => exact fun _ => rfl
    | cons definition rest induction => exact fun context => induction _
  exact congrArg DiagnosticLog.policy (kept definitions (ofOptions options))

/-! ## Requests -/

namespace FrontEnd

theorem loads_load (harmless : frontEnd.registry.IsHarmless)
    (plain : strict → frontEnd.ParsesPlainly) (violation : LoadError) (lasts : Lasts frontEnd strict Extra) :
    Loads frontEnd strict Extra frontEnd.load (frontEnd.guardedLoad violation) :=
  fun name context sound extra =>
    .read rfl (loads_loadGuarded harmless plain violation _ lasts name context sound extra)

end FrontEnd

/-- What a request does keeps the discipline, and guards make no difference. -/
theorem Request.agree_run (harmless : frontEnd.registry.IsHarmless) (violation : LoadError)
    (sound : context.Sound False) (request : Request) :
    Agree (evolving frontEnd False none fun _ => True) context (request.run frontEnd frontEnd.load)
      (request.run frontEnd (frontEnd.guardedLoad violation)) fun _ _ => True := by
  have lasts : Lasts frontEnd False fun _ => True := fun _ _ _ _ => trivial
  have loads : Loads frontEnd False (fun _ => True) frontEnd.load (frontEnd.guardedLoad violation) :=
    FrontEnd.loads_load harmless False.elim violation lasts
  cases request with
  | load name =>
      refine .bind (loads name context sound trivial) ?_
      intro id reached valid _ _
      exact .pure valid trivial
  | resolve scope reference =>
      have agree := Resolver.agree_full lasts loads harmless scope False.elim sound trivial reference
      have same := agree.same
      have valid := agree.valid.1
      have leads := agree.leads
      rcases outcome : Resolver.full frontEnd frontEnd.load scope (context, reference) with
        ⟨result, reached, draft⟩
      rw [outcome] at same valid leads
      have leftRun : (Request.resolve scope reference).run frontEnd frontEnd.load context =
          (result, reached) := by
        simp only [Request.run, outcome]
      have rightRun : (Request.resolve scope reference).run frontEnd
          (frontEnd.guardedLoad violation) context = (result, reached) := by
        simp only [Request.run, ← same]
      have ended := agree.ended
      rw [outcome] at ended
      refine ⟨leftRun.trans rightRun.symm, leftRun ▸ valid, leftRun ▸ leads, ?_⟩
      rw [leftRun]
      cases result with
      | ok found => trivial
      | error error => exact ended
  | instantiate request =>
      have bindable : request.bindings.AreBindable False none context := by
        intro binding _
        cases binding with
        | definition id => exact False.elim
        | parameter name => exact False.elim
      refine .bind (InstanceRequest.agree_load harmless lasts loads sound trivial bindable) ?_
      intro id reached valid _ _
      exact .pure valid trivial

namespace FrontEnd

/-- What one request keeps, any number of them keeps. -/
theorem advances_after (harmless : frontEnd.registry.IsHarmless) (requests : List Request)
    (sound : context.Sound False) :
    (frontEnd.after requests context).Sound False ∧
      Advances frontEnd False none context (frontEnd.after requests context) := by
  induction requests generalizing context with
  | nil => exact ⟨sound, .refl context⟩
  | cons request rest induction =>
      have step := Request.agree_run harmless .aborted sound request
      obtain ⟨soundAfter, advances⟩ := induction step.valid.1
      exact ⟨soundAfter, step.leads.trans advances⟩

/-- A name in the cache is answered from it. -/
theorem load_of_found {name : String} {id : DefinitionId}
    (found : context.cache.find? name = some id) :
    frontEnd.load name context = (.ok id, context) := by
  refine (Step.bind_of_ok rfl).trans ?_
  cases levelsLeft context with
  | zero => exact LoadCache.around_of_found _ found
  | succ levels => exact LoadCache.around_of_found _ found

/-- The cache is written once for each name. What is loaded after some requests is loaded
after any further ones, under the same name, with the same definition in the same slot,
which bears the name and has no other. No request is answered differently when each load
that a stage asks for has to leave alone the slot which the stage works on. -/
theorem cache_coherent (frontEnd : FrontEnd) (options : Options) (definitions : List Definition)
    (before later : List Request) (predefined : frontEnd.registry = .predefined)
    (collects : options.errorPolicy = .collect) :
    let first := frontEnd.after before (.ofDefinitions options definitions)
    let last := frontEnd.after later first
    (∀ name id, first.cache.find? name = some id →
      frontEnd.load name last = (.ok id, last) ∧
        last.cache.find? name = some id ∧
        id < first.arena.size ∧
        last.definition id = first.definition id ∧
        (first.definition id).name = name ∧
        ∀ other, first.cache.find? other = some id → other = name) ∧
    ∀ violation request, Request.run frontEnd (frontEnd.guardedLoad violation) request last =
      Request.run frontEnd frontEnd.load request last := by
  intro first last
  have harmless : frontEnd.registry.IsHarmless :=
    predefined ▸ AnnotationRegistry.isHarmless_predefined
  obtain ⟨soundFirst, reached⟩ := frontEnd.advances_after harmless before
    (sound_ofDefinitions options definitions False.elim)
  obtain ⟨soundLast, ⟨evolves, -⟩⟩ := frontEnd.advances_after harmless later soundFirst
  constructor
  · intro name id found
    have loaded : first.Loaded id := ⟨name, found⟩
    have foundLast := evolves.find?_cache found
    refine ⟨load_of_found foundLast, foundLast, soundFirst.loaded_lt name id found,
      soundFirst.definition_of_loaded evolves nofun loaded, ?_,
      fun other foundOther => soundFirst.loaded_unique other name id foundOther found⟩
    rcases soundFirst.loaded_names name id found with named | ⟨⟨stops, -⟩, -⟩
    · exact named
    · rw [reached.policy, policy_ofDefinitions, collects] at stops
      exact nomatch stops
  · intro violation request
    exact (Request.agree_run harmless violation soundLast request).same.symm

/-- The front end that knows no definitions but registered ones. -/
def registeredOnly : FrontEnd :=
  { registry := .predefined
    parser := none
    locator := none
    signatureExtends := fun _ _ => false
    countsLoads := false }

/-- The instance of a generic composite for one definition. -/
def housingOf (tenant : String) : Reference :=
  ⟨"a.G", [], [⟨none, .definition (.ofName tenant), .generated⟩], .generated, none⟩

/-- A composite that holds an instance, and one that holds this composite and another instance. -/
def housing : List Definition :=
  let part (name : String) (reference : Reference) : Component :=
    ⟨name, some reference, none, .generated, .none, none, false⟩
  [ .ofKind "a.P" .primitive, .ofKind "a.Q" .primitive,
    { Definition.ofKind "a.G" .composite with
      typeParameters := [⟨"T", none, .generated⟩]
      components := [⟨"c", none, some "T", .generated, .none, none, false⟩] },
    { Definition.ofKind "a.Inner" .composite with components := [part "g" (housingOf "a.P")] },
    { Definition.ofKind "a.Outer" .composite with
      components := [part "inner" (.ofName "a.Inner"), part "g" (housingOf "a.Q")] } ]

/-- A context in which the inner composite was loaded, and its instance with it. -/
def housed : Context :=
  registeredOnly.after [.load "a.Inner"] (.ofDefinitions .default housing)

/-- The inner composite, which was rewritten in its slot, and its instance are still there after
the instance was asked for again. The outer composite asks for further loads, among them that of
the other instance, and all of them leave its slot alone. -/
theorem housed_coherent :
    let last := registeredOnly.after [.resolve (some 3) (housingOf "a.P")] housed
    housed.cache.find? "a.Inner" = some 3 ∧ housed.cache.find? "a.G<a.P>" = some 5 ∧
      (housed.definition 3).components.map (·.resolvedId?) = [some 5] ∧
      registeredOnly.load "a.Inner" last = (.ok 3, last) ∧
      last.definition 3 = housed.definition 3 ∧ last.definition 5 = housed.definition 5 ∧
      let guarded := Request.run registeredOnly (registeredOnly.guardedLoad .aborted)
        (.load "a.Outer") last
      guarded.1.toOption = some (some 4) ∧ guarded.2.cache.find? "a.G<a.Q>" = some 6 := by
  intro last
  have found : housed.cache.find? "a.Inner" = some 3 ∧ housed.cache.find? "a.G<a.P>" = some 5 ∧
      (housed.definition 3).components.map (·.resolvedId?) = [some 5] := by
    decide +kernel
  obtain ⟨kept, guards⟩ := cache_coherent registeredOnly .default housing [.load "a.Inner"]
    [.resolve (some 3) (housingOf "a.P")] rfl rfl
  obtain ⟨answered, -, -, same, -⟩ := kept "a.Inner" 3 found.1
  obtain ⟨-, -, -, sameInstance, -⟩ := kept "a.G<a.P>" 5 found.2.1
  have unguarded : Request.run registeredOnly (registeredOnly.guardedLoad .aborted)
      (.load "a.Outer") last = Request.run registeredOnly registeredOnly.load (.load "a.Outer") last :=
    guards .aborted (.load "a.Outer")
  refine ⟨found.1, found.2.1, found.2.2, answered, same, sameInstance, ?_⟩
  rw [unguarded]
  decide +kernel

end FrontEnd

end Adl
