import Adl.Proofs.Binding.Instances

namespace Adl

open Step Context

/-! Loads of instances of generic definitions that a compilation loaded. -/

namespace FrontEnd

variable {frontEnd : FrontEnd} {options : Options} {definitions : List Definition}
  {roots : List String} {compiled : Compiled} {request : InstanceRequest}

/-- What a successful compilation loaded can be made instances of. -/
theorem grounded_of_compile (predefined : frontEnd.registry = .predefined)
    (plain : frontEnd.ParsesPlainly)
    (annotated : ∀ definition, definition ∈ definitions ∨ frontEnd.Parses definition →
      definition.IsPlainlyAnnotated)
    (undecorated : ∀ definition ∈ definitions, ∀ component ∈ definition.components,
      component.resolved = none)
    (succeeds : (frontEnd.compile (.ofDefinitions options definitions) roots).outcome = .ok compiled)
    (loaded : compiled.context.Loaded request.generic)
    (conforms : request.Conforms frontEnd.signatureExtends compiled.context) :
    request.Grounded frontEnd.signatureExtends compiled.context := by
  have harmless : frontEnd.registry.IsHarmless :=
    predefined ▸ AnnotationRegistry.isHarmless_predefined
  obtain ⟨sound, -, -⟩ := advances_compile harmless (fun _ : True => plain) roots
    (sound_ofDefinitions options definitions fun _ => undecorated) succeeds
  obtain ⟨silent, path, closedOn⟩ := closedOn_of_compile harmless (fun _ : True => plain)
    (fun _ => undecorated) succeeds
  have built := areBuilt_of_path harmless annotated path silent
  -- What was closed is formed and wired.
  have settled : ∀ {id name middle before}, ClosedOn frontEnd True (.ofDefinitions options definitions)
      name id middle before compiled.context →
      (middle.definition id).Everywhere Annotations.AreBuilt ∧ before.log.errors = [] ∧
        (compiled.context.definition id).IsFormed ∧
        (compiled.context.definition id).Wired frontEnd.signatureExtends before := by
    intro id name middle before closed
    have silentBefore := closed.silent silent
    have builtMiddle := built_of_closed harmless annotated closed
      ((closed.edited harmless).silent silentBefore)
    rw [closed.definition]
    exact ⟨builtMiddle, silentBefore, closed.isFormed predefined builtMiddle silentBefore,
      closed.wired predefined (Definition.isOrdinary_iff.mpr
        (builtMiddle.mono fun _ _ built => built.isPredefined)) silentBefore⟩
  obtain ⟨name, middle, before, closed⟩ := closedOn request.generic loaded
  obtain ⟨builtMiddle, silentBefore, formed, wired⟩ := settled closed
  have part : ∀ component ∈ (compiled.context.definition request.generic).components, ∀ part,
      component.resolvedId? = some part → compiled.context.LoadedBy part request.generic ∧
        request.generic ≠ part ∧ compiled.context.definition part = before.definition part :=
    fun component member part designates =>
      closed.part sound ⟨loaded, component, member, designates⟩
  refine ⟨formed, ?_, ?_, ?_, ?_, built, before, wired, ?_⟩
  · exact path.namesApart harmless (hasSlots_ofDefinitions options definitions)
      (fun id isLoaded => absurd isLoaded (not_loaded_ofDefinitions options definitions id)) silent _ loaded
  · obtain ⟨load, extended, marked, complete, bound, parameterized, typed, passage⟩ :=
      closed.passage predefined (Definition.isOrdinary_iff.mpr
        (builtMiddle.mono fun _ _ built => built.isPredefined))
    have parts : ∀ index target, (before.definition request.generic).part? index = some target →
        compiled.context.Loaded target ∧ request.generic ≠ target ∧
          compiled.context.definition target = before.definition target := by
      intro index target isPart
      rw [← closed.definition] at isPart
      obtain ⟨component, found, designates⟩ := Option.bind_eq_some_iff.mp isPart
      exact (part component (List.mem_of_getElem? found) target designates).imp_left (·.loaded sound)
    rw [closed.definition]
    refine (passage.minds predefined builtMiddle fun index target isPart => ?_).of_same
      fun index target isPart => (parts index target isPart).2.2
    obtain ⟨isLoaded, different, same⟩ := parts index target isPart
    exact ⟨different, same ▸ built target isLoaded⟩
  · intro component member isDefinition
    obtain ⟨known, found⟩ := loaded
    obtain ⟨resolved, target, decorated, isTarget, -⟩ :=
      sound.isFullyResolved silent known request.generic found component member isDefinition
    rw [Component.resolvedId?, decorated, Option.bind_some, isTarget]
    rfl
  · exact fun component member target designates =>
      (part component member target designates).1.loaded sound
  · intro component member target designates
    have isBy : compiled.context.LoadedBy target request.generic := by
      cases isPart : component.resolvedId? with
      | some other =>
          rw [Definition.designated?, isPart] at designates
          cases designates
          exact (part component member target isPart).1
      | none =>
          cases isPlaceholder : component.typeParameter with
          | none =>
              rw [Definition.designated?, isPart, isPlaceholder] at designates
              cases designates
          | some parameter =>
              obtain ⟨type, _, isType, loadedBy, -⟩ :=
                conforms component member parameter isPlaceholder
              cases designates.symm.trans isType
              exact loadedBy
    obtain ⟨_, _, _, closedTarget⟩ := closedOn target (isBy.loaded sound)
    exact ⟨(closed.definition_of_loadedBy sound isBy).symm, (settled closedTarget).2.2.2.sized⟩

end FrontEnd

/-- A cache lets a load that it does not answer go on, or refuses it. -/
theorem LoadCache.ends_of_around {inner : Loading DefinitionId} {name : String}
    {context reached : Context} {result : Except LoadError DefinitionId}
    (absent : context.cache.find? name = none)
    (ends : around name inner context = (result, reached)) :
    (∃ error, result = .error error ∧ error.isFatalOf .unboundInterface = false ∧
      reached.log = context.log) ∨
    ∃ last, inner (entering context name) = (result, last) ∧ reached.arena = last.arena ∧
      reached.log = last.log := by
  by_cases loading : name ∈ context.loading
  · cases (around_of_loading inner absent loading).symm.trans ends
    exact .inl ⟨_, rfl, rfl, rfl⟩
  · by_cases room : context.loading.length < context.options.maxResolutionDepth
    · rw [around_of_absent inner absent loading room] at ends
      rcases outcome : inner (entering context name) with ⟨ended, last⟩
      rw [outcome] at ends
      cases ended <;> cases ends <;> exact .inr ⟨last, rfl, rfl, rfl⟩
    · cases (around_of_full inner absent loading (Nat.not_lt.mp room)).symm.trans ends
      exact .inl ⟨_, rfl, rfl, rfl⟩

namespace FrontEnd

variable {frontEnd : FrontEnd}

/-- A registered definition goes through all stages, unless its load is refused. -/
theorem stages_of_loadWithin {levels : Nat} {name : String} {id : DefinitionId}
    {context reached : Context} {result : Except LoadError DefinitionId}
    (registered : context.registered.find? name = some id)
    (absent : context.cache.find? name = none)
    (ends : frontEnd.loadWithin levels name context = (result, reached)) :
    (∃ error, result = .error error ∧ error.isFatalOf .unboundInterface = false ∧
      reached.log = context.log) ∨
    ∃ inner trace outcome last,
      Stage.all.forM (Stage.run frontEnd (frontEnd.loadWithin inner) name id)
          { LoadCache.entering context name with trace } = (outcome, last) ∧
        result = outcome.map (fun _ => id) ∧ reached.arena = last.arena ∧
        reached.log = last.log := by
  cases levels with
  | zero =>
      rcases LoadCache.ends_of_around absent ends with refused | ⟨last, refused, -, log⟩
      · exact .inl refused
      · cases refused
        exact .inl ⟨_, rfl, rfl, log⟩
  | succ levels =>
      refine (LoadCache.ends_of_around absent ends).imp_right ?_
      rintro ⟨last, ran, arena, log⟩
      obtain ⟨trace, counts⟩ := frontEnd.runStages_of_registered (frontEnd.loadWithin levels) Stage.all
        (show (LoadCache.entering context name).registered.find? name = some id from registered)
      rw [counts] at ran
      rcases outcome : Stage.all.forM (Stage.run frontEnd (frontEnd.loadWithin levels) name id)
        { LoadCache.entering context name with trace } with ⟨ended, final⟩
      refine ⟨levels, trace, ended, final, outcome, ?_⟩
      cases ended with
      | ok =>
          cases (bind_of_ok outcome).symm.trans ran
          exact ⟨rfl, arena, log⟩
      | error error =>
          cases (bind_of_error outcome).symm.trans ran
          exact ⟨rfl, arena, log⟩

/-- What is recorded about bindings is recorded while the sub-components of the instance are
resolved, of which some pass a type parameter on. -/
def RecordsInside (frontEnd : FrontEnd) (request : InstanceRequest) (known context reached : Context) :
    Prop :=
  (∃ component ∈ (known.definition request.generic).components,
      component.PassesOn request.bindings) ∧
    ∃ levels id before outcome after,
      before.registered.find? (request.instanceName context) = some id ∧
      before.bindingErrors = context.bindingErrors ∧
      Stage.run frontEnd (frontEnd.loadWithin levels) (request.instanceName context) id .subComponents
        before = (outcome, after) ∧
      reached.bindingErrors = after.bindingErrors

/-- An instance that was registered binds, wherever its load starts. -/
theorem binds_of_registered {request : InstanceRequest} {known start reached : Context} {levels : Nat}
    {name : String} {slot : DefinitionId} {result : Except LoadError DefinitionId}
    (predefined : frontEnd.registry = .predefined) (plain : frontEnd.ParsesPlainly)
    (transitive : IsTransitive frontEnd.signatureExtends)
    (grounded : request.Grounded frontEnd.signatureExtends known)
    (conforms : request.Conforms frontEnd.signatureExtends known) (binds : request.BindsAll known)
    (sound : start.Sound True) (kept : known.KeepsLoaded start)
    (registered : start.registered.find? name = some slot) (absent : start.cache.find? name = none)
    (inside : (request.bare known name).EditsInside (start.definition slot))
    (ends : frontEnd.loadWithin levels name start = (result, reached))
    (stand : request.PartsStand known reached slot) :
    (∀ error, result = .error error → error.isFatalOf .unboundInterface = false) ∧
      (reached.bindingErrors = start.bindingErrors ∨
        (∃ component ∈ (known.definition request.generic).components,
          component.PassesOn request.bindings) ∧
        ∃ levels before outcome after, before.registered.find? name = some slot ∧
          before.bindingErrors = start.bindingErrors ∧
          Stage.run frontEnd (frontEnd.loadWithin levels) name slot .subComponents before =
            (outcome, after) ∧
          reached.bindingErrors = after.bindingErrors) ∧
      ∀ id, result = .ok id → List.Forall₂ Binding.Resettled (reached.definition id).bindings
        (known.definition request.generic).bindings := by
  rcases stages_of_loadWithin registered absent ends with
    ⟨error, rfl, other, log⟩ | ⟨inner, trace, outcome, last, ran, rfl, arena, log⟩
  · refine ⟨fun _ same => ?_, .inl (bindingErrors_congr log), nofun⟩
    cases same
    exact other
  · have same : ∀ id, reached.definition id = last.definition id := fun id => by
      simp only [Context.definition, arena]
    have errors := bindingErrors_congr log
    have reports : Reports (LoadCache.entering start name)
        { LoadCache.entering start name with trace } := { Reports.refl _ with }
    have entered : name ∈ (LoadCache.entering start name).loading :=
      List.mem_append_right _ List.mem_cons_self
    have finds : Sources.find frontEnd name
        { LoadCache.entering start name with trace } =
          (.ok slot, { LoadCache.entering start name with trace }) :=
      Sources.find_of_registered registered
    obtain ⟨valid, -⟩ := Sources.making_of_find (fun _ => plain)
      ((sound.loading (start.loading ++ [name])).ofReports reports) entered absent finds
    have keptInside : known.KeepsLoaded { LoadCache.entering start name with trace } :=
      kept.trans (.of_same rfl rfl fun _ _ _ => id)
    have standLast : request.PartsStand known last slot := by
      unfold InstanceRequest.PartsStand at stand ⊢
      simpa only [same] using stand
    have binds := Stage.bindsInstance_of_ran predefined plain transitive grounded conforms binds
      keptInside valid inside ran standLast
    obtain ⟨ended, after, resolves, recorded, stays⟩ := binds.inside
    refine ⟨fun error fails => ?_, ?_, fun id isId => ?_⟩
    · cases outcome with
      | ok => cases fails
      | error other =>
          cases fails
          exact binds.bound _ rfl
    · by_cases passes : ∃ component ∈ (known.definition request.generic).components,
          component.PassesOn request.bindings
      · exact .inr ⟨passes, inner, { LoadCache.entering start name with trace }, ended, after,
          registered, rfl, resolves, errors.trans recorded⟩
      · rw [stays fun component member isPassed => passes ⟨component, member, isPassed⟩] at recorded
        exact .inl (errors.trans recorded)
    · cases outcome with
      | ok =>
          cases isId
          rw [same]
          exact binds.bindings rfl
      | error other => cases isId

/-- A sub-component with what is bound to the type parameter `P`, and one to which this is passed
on. -/
def placed (name : String) : Component :=
  ⟨name, none, some "P", .generated, .none, none, false⟩

def passed (name generic : String) : Component :=
  slot name ⟨generic, [], [⟨none, .parameter "P", .generated⟩], .generated, none⟩

/-- A composite with a type parameter that conforms to `a.T`. -/
def generic (name : String) (interfaces : List Interface) (components : List Component)
    (bindings : List Binding) : Definition :=
  { holding interfaces components bindings with
    name
    typeParameters := [⟨"P", some (.ofName "a.T"), .generated⟩] }

def paired (role : Role) (name : String) : Interface :=
  { Interface.ofRole role name "s" with cardinality := .collection (some 2) }

/-- A type, and a primitive that conforms to it: what it serves has more elements, and what it
requires is optional. Of two generic composites that put it in the place of the type, one also passes
it on to the other. -/
def substituting : List Definition :=
  [ { Definition.ofKind "a.T" .type with
      interfaces := [paired .server "y", .ofRole .client "x" "s"] },
    { Definition.ofKind "a.V" .primitive with
      interfaces :=
        [{ Interface.ofRole .server "y" "s" with cardinality := .collection (some 3) },
          { Interface.ofRole .client "x" "s" with contingency := .optional },
          { Interface.ofRole .client "z" "s" with contingency := .optional }]
      sources := [.ofPath "v.c"] },
    offering "a.S" (.ofRole .server "w" "s"),
    generic "a.G" [paired .server "e", paired .server "f"]
      [placed "p", part "d" "a.S", passed "h" "a.H"]
      [wire "this" "e" "p" "y", wire "p" "x" "d" "w", wire "this" "f" "h" "e"],
    generic "a.H" [paired .server "e"] [placed "p", part "d" "a.S"]
      [wire "this" "e" "p" "y", wire "p" "x" "d" "w"] ]

/-- The generic composite with the primitive in the place of the type. -/
def passedOn : InstanceRequest :=
  ⟨3, ⟨[("P", .definition 1)]⟩⟩

/-- A type, a primitive that may conform to it, and a generic composite. -/
def offered (declared provided : Interface) (value composite : Definition)
    (others : List Definition) : List Definition :=
  [{ Definition.ofKind "a.T" .type with interfaces := [declared] }, value, offering "a.S" provided,
    composite] ++ others

def valued (interfaces : List Interface) : Definition :=
  { Definition.ofKind "a.V" .primitive with
    interfaces
    sources := [.ofPath "v.c"] }

/-- A generic composite that binds what the type requires, and one that passes on what is bound. -/
def requiring (name : String) : Definition :=
  generic name [.ofRole .server "e" "s"] [placed "p", part "d" "a.S"]
    [wire "this" "e" "d" "w", wire "p" "x" "d" "w"]

def passing : Definition :=
  generic "a.G" [.ofRole .server "e" "s"] [passed "h" "a.H"] [wire "this" "e" "h" "e"]

/-- The generic composite and the primitive load and the primitive conforms to the type, but an
error about a binding is recorded for the instance, or its load is refused for what is unbound. -/
def RefusesConforming (definitions : List Definition) (report : Diagnostic) : Prop :=
  ∃ compiled, (registeredOnly.compile (.ofDefinitions .default definitions)
      ["a.G", "a.V"]).outcome = .ok compiled ∧
    compiled.context.cache.find? "a.G" = some 3 ∧ compiled.context.cache.find? "a.V" = some 1 ∧
    (compiled.context.definition 1).isType = false ∧
    (compiled.context.definition 1).isAbstract = false ∧
    Conformance.problems registeredOnly.signatureExtends (compiled.context.definition 1)
      (compiled.context.definition 0) .generated = [] ∧
    (report ∈ (registeredOnly.instantiate passedOn compiled.context).2.bindingErrors ∨
      report.kind = .unboundInterface ∧
        (registeredOnly.instantiate passedOn compiled.context).1 = .error (.fatal report))

end FrontEnd

end Adl
