import Adl.Proofs.Binding.Report
import Adl.Proofs.Loading.FirstError
import Adl.Proofs.Loading.TrustedStages

namespace Adl

open Step Context Resolver

/-! Loading with checks. Whatever definitions are registered with, no request reads one through a
decoration that does not fit. -/

namespace FrontEnd

def runStagesChecked (violation : LoadError) (frontEnd : FrontEnd)
    (load : String → Loading DefinitionId) (name : String) : Loading DefinitionId := do
  if frontEnd.countsLoads then
    Loading.update (·.countLoad name)
  let id ← Sources.find frontEnd name
  Stage.all.forM (Stage.runChecked violation frontEnd load name id)
  return id

def loadWithinChecked (violation : LoadError) (frontEnd : FrontEnd) :
    Nat → String → Loading DefinitionId
  | 0, name => LoadCache.around name do
      let context ← Loading.context
      Step.fail (LoadCache.tooDeep name context.options.maxResolutionDepth)
  | levels + 1, name =>
      LoadCache.around name
        (frontEnd.runStagesChecked violation (frontEnd.loadWithinChecked violation levels) name)

/-- Loading where definitions are checked before they are read through decorations. -/
def loadChecked (violation : LoadError) (frontEnd : FrontEnd) (name : String) :
    Loading DefinitionId := do
  frontEnd.loadWithinChecked violation (levelsLeft (← Loading.context)) name

end FrontEnd

variable {context : Context} {load twin : String → Loading DefinitionId} {violation : LoadError}
  {frontEnd : FrontEnd} {name : String} {id : DefinitionId}

/-! ## Finding definitions -/

/-- What is parsed can be checked. -/
def FrontEnd.ParsesCheckably (frontEnd : FrontEnd) : Prop :=
  ∀ parse, frontEnd.parser = some parse → ∀ name text file definition,
    parse name text file = .ok definition → definition.IsCheckable

namespace Sources

/-- A definition of the name is not loaded, but being loaded. -/
def Awaits (name : String) (context : Context) : Prop :=
  context.stopped = false → name ∈ context.loading ∧ context.cache.find? name = none

theorem Awaits.of_reports {before after : Context} (awaits : Awaits name before)
    (reports : Reports before after) : Awaits name after := by
  intro runs
  rw [reports.loading, reports.cache]
  exact awaits (runs_of_reports reports runs)

theorem agree_accept_trusted (valid : trusting.Valid context) (awaits : Awaits name context)
    {definition : Definition} (checkable : definition.IsCheckable) :
    Agree trusting context (accept name definition) (accept name definition)
      fun id => Fills name id := by
  unfold accept
  split
  · rename_i named
    refine .run rfl (fun runs => (valid runs).push (isSane_of_isCheckable checkable context))
      (fun runs => ⟨runs, .push context definition⟩) fun runs =>
        ⟨?_, ?_, (awaits runs).1, (awaits runs).2⟩
    · change context.arena.size < (context.arena.push definition).size
      rw [Array.size_push]
      exact Nat.lt_succ_self _
    · exact (congrArg Definition.name (definition_push_size context definition)).trans named
  · exact .fail valid trivial

theorem agree_find_trusted (parses : frontEnd.ParsesCheckably) (valid : trusting.Valid context)
    (awaits : Awaits name context) :
    Agree trusting context (find frontEnd name) (find frontEnd name) fun id => Fills name id := by
  have accepts : ∀ {reached : Context} {parse : SourceParser} {text : String} {file : UInt16}
      {definition : Definition}, frontEnd.parser = some parse →
      parse name text file = .ok definition → trusting.Valid reached → Reports context reached →
      Agree trusting reached (accept name definition) (accept name definition)
        fun id => Fills name id :=
    fun isParser parsed valid reports => agree_accept_trusted valid (awaits.of_reports reports)
      (parses _ isParser _ _ _ _ parsed)
  refine .read rfl ?_
  split
  · rename_i id registered
    refine .pure valid fun runs => ?_
    obtain ⟨within, named⟩ := (valid runs).registered name id registered
    exact ⟨within, named, (awaits runs).1, (awaits runs).2⟩
  · split
    · unfold parseRegistered
      split
      · exact .fail valid trivial
      · rename_i parse isParser
        refine .bind ((agree_store _).trusted valid) ?_
        rintro file reached valid _ ⟨-, reports⟩
        split
        · exact accepts isParser ‹_› valid reports
        · exact .bind ((agree_dumped _ _).trusted valid) fun _ _ valid _ _ => .fail valid trivial
    · unfold parseLocated
      split
      · exact .fail valid trivial
      · exact .fail valid trivial
      · rename_i located parse _ isParser
        refine .bind ((agree_store _).trusted valid) ?_
        rintro file reached valid _ ⟨-, reports⟩
        split
        · exact accepts isParser ‹_› valid reports
        · exact .fail valid trivial

end Sources

/-! ## Loading -/

namespace LoadCache

theorem respects_leaving {reached : Context} (notLoading : name ∉ context.loading)
    (respects : Respects (entering context name) reached) :
    Respects context (leaving reached name) where
  loading := by
    change reached.loading.erase name = context.loading
    rw [respects.loading, entering, List.erase_append_right _ notLoading]
    simp
  size := respects.size
  names := respects.names
  cache := respects.cache
  absent other loading absent := respects.absent other (List.mem_append_left _ loading) absent

theorem respects_finish {reached : Context} (notLoading : name ∉ context.loading)
    (absent : reached.cache.find? name = none) (respects : Respects context reached) :
    Respects context { reached with cache := reached.cache.insert name id } :=
  { respects with
    cache := by
      intro other known found
      have kept := respects.cache other known found
      refine (Table.find?_insert ..).trans ((if_neg ?_).trans kept)
      rintro rfl
      exact nomatch absent.symm.trans kept
    absent := by
      intro other loading isAbsent
      refine (Table.find?_insert ..).trans ((if_neg ?_).trans (respects.absent other loading isAbsent))
      rintro rfl
      exact notLoading loading }

/-- What is loaded inside the cache has to be trusted. -/
theorem agree_around_trusted (valid : trusting.Valid context) {inner twin : Loading DefinitionId}
    (agree : trusting.Valid (entering context name) →
      Sources.Awaits name (entering context name) →
      Agree trusting (entering context name) inner twin fun id => Stage.Trusts name id) :
    Agree trusting context (around name inner) (around name twin) fun id reached =>
      reached.stopped = false → reached.cache.find? name = some id := by
  cases found : context.cache.find? name with
  | some id =>
      exact .of_eq (around_of_found inner found) (around_of_found twin found)
        (.pure valid fun _ => found)
  | none =>
      by_cases loading : name ∈ context.loading
      · exact .of_eq (around_of_loading inner found loading) (around_of_loading twin found loading)
          (.fail valid trivial)
      · by_cases room : context.loading.length < context.options.maxResolutionDepth
        · have ran := agree (fun runs => (valid runs).of_same rfl rfl rfl rfl) fun _ =>
            ⟨List.mem_append_right _ List.mem_cons_self, found⟩
          have same := ran.same
          have ended := ran.ended
          have validAfter := ran.valid
          have leads := ran.leads
          have leftRun := around_of_absent inner found loading room
          have rightRun := around_of_absent twin found loading room
          rw [← same] at rightRun
          rcases outcome : inner (entering context name) with ⟨result, reached⟩
          rw [outcome] at leftRun rightRun ended validAfter leads
          have leadsLeaving : trusting.Leads context (leaving reached name) := fun runs =>
            have ⟨running, respects⟩ := leads runs
            ⟨running, respects_leaving loading respects⟩
          have validLeaving : trusting.Valid (leaving reached name) := fun runs =>
            (validAfter runs).of_same rfl rfl rfl rfl
          cases result with
          | error error => exact .ends leftRun rightRun validLeaving leadsLeaving trivial
          | ok id =>
              refine .ends leftRun rightRun (fun runs => ?_) (fun runs => ?_) fun _ => by simp
              · obtain ⟨isOpen, links⟩ := ended runs
                exact ((validAfter runs).finish isOpen links).of_same rfl rfl rfl rfl
              · obtain ⟨running, respects⟩ := leadsLeaving runs
                exact ⟨running, respects_finish loading (ended runs).1.absent respects⟩
        · have full := Nat.le_of_not_lt room
          exact .of_eq (around_of_full inner found loading full)
            (around_of_full twin found loading full) (.fail valid trivial)

end LoadCache

namespace FrontEnd

theorem agree_runStages_trusted (harmless : frontEnd.registry.IsHarmless)
    (parses : frontEnd.ParsesCheckably) (loads : LoadsTrusted load twin)
    (valid : trusting.Valid context) (awaits : Sources.Awaits name context) :
    Agree trusting context (frontEnd.runStages load Stage.all name)
      (frontEnd.runStagesChecked violation twin name) fun id => Stage.Trusts name id := by
  have made : ∀ {reached : Context}, trusting.Valid reached → Sources.Awaits name reached →
      Agree trusting reached
        (do
          let id ← Sources.find frontEnd name
          Stage.all.forM (Stage.run frontEnd load name id)
          return id)
        (do
          let id ← Sources.find frontEnd name
          Stage.all.forM (Stage.runChecked violation frontEnd twin name id)
          return id) fun id => Stage.Trusts name id := by
    intro reached valid awaits
    refine .bind (Sources.agree_find_trusted parses valid awaits) fun id later valid _ fills => ?_
    exact .bind (Stage.agree_runAll_trusted harmless loads valid fills)
      fun _ _ valid _ trusts => .pure valid trusts
  unfold runStages runStagesChecked
  dsimp only
  split
  · have reports : Reports context (context.countLoad name) := { Reports.refl context with }
    refine .through (fun _ reached => Sources.Awaits name reached)
      (.run rfl (valid_of_reports valid reports) (leads_of_reports reports)
        (awaits.of_reports reports)) ?_
    exact fun _ _ valid _ awaits => made valid awaits
  · exact made valid awaits

theorem loads_loadWithinChecked (harmless : frontEnd.registry.IsHarmless)
    (parses : frontEnd.ParsesCheckably) (violation : LoadError) (levels : Nat) :
    LoadsTrusted (frontEnd.loadWithin levels) (frontEnd.loadWithinChecked violation levels) := by
  induction levels with
  | zero =>
      intro name context valid
      exact LoadCache.agree_around_trusted valid fun valid _ => .read rfl (.fail valid trivial)
  | succ levels induction =>
      intro name context valid
      exact LoadCache.agree_around_trusted valid fun valid awaits =>
        agree_runStages_trusted harmless parses induction valid awaits

/-- No check of what loading reads fails. -/
theorem loads_loadChecked (harmless : frontEnd.registry.IsHarmless)
    (parses : frontEnd.ParsesCheckably) (violation : LoadError) :
    LoadsTrusted frontEnd.load (frontEnd.loadChecked violation) :=
  fun name context valid =>
    .read rfl (loads_loadWithinChecked harmless parses violation _ name context valid)

end FrontEnd

/-! ## Requests -/

namespace Request

/-- Answers a request where definitions are checked before they are read through decorations. -/
def runChecked (violation : LoadError) (frontEnd : FrontEnd) :
    Request → Loading (Option DefinitionId)
  | .load name => do return some (← frontEnd.loadChecked violation name)
  | .resolve scope reference => fun context =>
      let (result, (context, _)) :=
        fullChecked violation frontEnd (frontEnd.loadChecked violation) scope (context, reference)
      (result, context)
  | .instantiate request => do
      return some (← request.loadChecked violation frontEnd.registry
        (frontEnd.loadChecked violation))

/-- Instances are asked for of what is loaded. -/
def IsReady (context : Context) : Request → Prop
  | .load _ | .resolve _ _ => True
  | .instantiate request => request.IsReady context

theorem agree_run_trusted (harmless : frontEnd.registry.IsHarmless)
    (parses : frontEnd.ParsesCheckably) (violation : LoadError) (valid : trusting.Valid context)
    (request : Request) (ready : context.stopped = false → request.IsReady context) :
    Agree trusting context (request.run frontEnd frontEnd.load)
      (request.runChecked violation frontEnd) fun _ _ => True := by
  have loads : LoadsTrusted frontEnd.load (frontEnd.loadChecked violation) :=
    FrontEnd.loads_loadChecked harmless parses violation
  cases request with
  | load name => exact .bind (loads name context valid) fun _ _ valid _ _ => .pure valid trivial
  | resolve scope reference =>
      have resolves : ResolvesTrusted (full frontEnd frontEnd.load)
          (fullChecked violation frontEnd (frontEnd.loadChecked violation)) :=
        trusted_full harmless loads
      have agree := resolves reference.resolved scope context reference valid decorated_self
      have same := agree.same
      have validAfter := agree.valid.1
      have leads := agree.leads
      rcases outcome : full frontEnd frontEnd.load scope (context, reference) with
        ⟨result, reached, draft⟩
      rw [outcome] at same validAfter leads
      have leftRun : (Request.resolve scope reference).run frontEnd frontEnd.load context =
          (result, reached) := by
        simp only [Request.run, outcome]
      have rightRun : (Request.resolve scope reference).runChecked violation frontEnd context =
          (result, reached) := by
        simp only [runChecked, ← same]
      refine .ends leftRun rightRun validAfter leads ?_
      cases result <;> trivial
  | instantiate request =>
      exact .bind (InstanceRequest.agree_loadChecked harmless loads valid ready)
        fun _ _ valid _ _ => .pure valid trivial

end Request

namespace Context

theorem safe_ofDefinitions (options : Options) {definitions : List Definition}
    (checkable : ∀ definition ∈ definitions, definition.IsCheckable) :
    (ofDefinitions options definitions).Safe := by
  have registered : ∀ (definitions : List Definition) (context : Context), context.Safe →
      (∀ definition ∈ definitions, definition.IsCheckable) →
      (definitions.foldl (fun context definition =>
        (context.register definition.name definition).2) context).Safe := by
    intro definitions
    induction definitions with
    | nil => exact fun _ safe _ => safe
    | cons definition rest induction =>
        intro context safe checkable
        obtain ⟨first, others⟩ := List.forall_mem_cons.mp checkable
        exact induction _ (safe.register rfl (isSane_of_isCheckable first context)) others
  have start : (ofOptions options).Safe :=
    ⟨nofun, nofun, fun _ => ⟨nofun, nofun⟩, nofun⟩
  exact registered definitions _ start checkable

end Context

namespace FrontEnd

/-- Each request is ready when its turn comes. -/
def AreReady (frontEnd : FrontEnd) : List Request → Context → Prop
  | [], _ => True
  | request :: rest, context =>
      request.IsReady context ∧ frontEnd.AreReady rest (request.run frontEnd frontEnd.load context).2

theorem valid_after (harmless : frontEnd.registry.IsHarmless)
    (parses : frontEnd.ParsesCheckably) (requests : List Request)
    (ready : frontEnd.AreReady requests context) (valid : trusting.Valid context) :
    trusting.Valid (frontEnd.after requests context) := by
  induction requests generalizing context with
  | nil => exact valid
  | cons request rest induction =>
      exact induction ready.2 (Request.agree_run_trusted harmless parses .aborted valid request
        fun _ => ready.1).valid

/-- Whatever handles definitions are registered with, as long as those which loading does not
resolve anew are none: no request reads a definition through a decoration that does not fit, and
what is loaded holds none. A lookup for a decoration gives a slot with the definition of its
name. -/
theorem handles_fit_when_read (frontEnd : FrontEnd) (harmless : frontEnd.registry.IsHarmless)
    (parses : frontEnd.ParsesCheckably) (options : Options) (definitions : List Definition)
    (checkable : ∀ definition ∈ definitions, definition.IsCheckable) (requests : List Request)
    (ready : frontEnd.AreReady requests (.ofDefinitions options definitions)) :
    let reached := frontEnd.after requests (.ofDefinitions options definitions)
    (∀ violation (request : Request), (reached.stopped = false → request.IsReady reached) →
      request.runChecked violation frontEnd reached = request.run frontEnd frontEnd.load reached) ∧
    (reached.stopped = false →
      (∀ id, reached.Loaded id → reached.trusts (reached.definition id) = true) ∧
        ∀ resolved id, reached.resolved? resolved = some id →
          id < reached.arena.size ∧ (reached.definition id).name = resolved.name) := by
  intro reached
  have valid : trusting.Valid reached := valid_after harmless parses requests ready
    fun _ => safe_ofDefinitions options checkable
  refine ⟨fun violation request ready =>
    (Request.agree_run_trusted harmless parses violation valid request ready).same.symm,
    fun runs => ⟨fun id loaded => (valid runs).trusts loaded, fun resolved id found => ?_⟩⟩
  exact named_of_resolved? (fun name id found =>
    have ⟨within, named, _⟩ := (valid runs).loaded name id found
    ⟨within, named⟩) found

/-- A composite whose part comes with the handle of another definition. -/
def misplaced : List Definition :=
  [ offering "a.X" (.ofRole .server "s" "s"), offering "a.Y" (.ofRole .server "t" "s"),
    holding [] [{ part "c" "a.Y" with resolved := some ⟨"a.Y", some 0⟩ }] [] ]

/-- The part is found by its name. -/
theorem misplaced_handle_replaced :
    let reached := registeredOnly.after [.load "a.Top"] (.ofDefinitions .default misplaced)
    (reached.definition 2).components.map (·.resolvedId?) = [some 1] ∧
      reached.trusts (reached.definition 2) = true ∧
      (Request.resolve none (.ofName "a.Top")).runChecked .aborted registeredOnly reached =
        (Request.resolve none (.ofName "a.Top")).run registeredOnly registeredOnly.load reached := by
  have runs : (registeredOnly.after [.load "a.Top"]
      (.ofDefinitions .default misplaced)).stopped = false := by decide +kernel
  have loaded : (registeredOnly.after [.load "a.Top"]
      (.ofDefinitions .default misplaced)).cache.find? "a.Top" = some 2 := by decide +kernel
  have checkable : ∀ definition ∈ misplaced, definition.IsCheckable := by decide
  have fits := handles_fit_when_read registeredOnly AnnotationRegistry.isHarmless_predefined
    (fun _ isParser => nomatch isParser) .default misplaced checkable [.load "a.Top"]
    ⟨trivial, trivial⟩
  exact ⟨by decide +kernel, (fits.2 runs).1 2 ⟨"a.Top", loaded⟩, fits.1 _ _ fun _ => trivial⟩

/-- A generic composite that asks for a type, which comes with a handle. -/
def conformingWith (id : Option DefinitionId) : List Definition :=
  [ offering "a.X" (.ofRole .server "s" "s"), .ofKind "a.T" .type,
    { Definition.ofKind "a.V" .primitive with sources := [.ofPath "v.c"] },
    { holding [] [⟨"p", none, some "P", .generated, .none, none, false⟩] [] with
      name := "a.G"
      typeParameters :=
        [⟨"P", some { Reference.ofName "a.T" with resolved := some ⟨"a.T", id⟩ }, .generated⟩] },
    holding [] [⟨"g", some { Reference.ofName "a.G" with
        typeArguments := [⟨none, .definition (.ofName "a.V"), .generated⟩] }, none, .generated,
      .none, none, false⟩] [] ]

/-- A composite with a part that names no definition but comes with a handle. -/
def unnamedWith (id : Option DefinitionId) : List Definition :=
  [ offering "a.X" (.ofRole .server "t" "s"),
    holding [.ofRole .server "s" "s"]
      [⟨"c", none, none, .generated, .none, some ⟨"a.S", id⟩, false⟩] [wire "this" "s" "c" "s"] ]

/-- A check stops the compilation before something is read through a handle that does not fit. -/
def FailsChecks (definitions : List Definition) (root : String) : Prop :=
  ((Request.load root).run registeredOnly registeredOnly.load
      (.ofDefinitions .default definitions)).1.toOption.isSome = true ∧
    ((Request.load root).runChecked .aborted registeredOnly
      (.ofDefinitions .default definitions)).1.toOption.isSome = false

instance (definitions : List Definition) (root : String) :
    Decidable (FailsChecks definitions root) :=
  inferInstanceAs (Decidable (_ ∧ _))

/-- Through handles that do not fit, an argument is compared with the definition in the slot, not
with the type, and a binding with a definition that its part does not name. Without the handles
both compilations succeed. -/
theorem reads_through_stale_handles :
    (FailsChecks (conformingWith (some 0)) "a.Top" ∧
      Refuses (conformingWith (some 0)) ["a.Top"] [.error .incompatibleTypeArgument .generated
        "'a.V' does not conform to 'a.X': missing server interface 's'"] ∧
      (registeredOnly.compile (.ofDefinitions .default (conformingWith none))
        ["a.Top"]).errors = []) ∧
    FailsChecks (unnamedWith (some 0)) "a.Top" ∧
      Refuses (unnamedWith (some 0)) ["a.Top"] [.error .invalidBinding .generated
        "no interface named 's' on 'c'"] ∧
      (registeredOnly.compile (.ofDefinitions .default (unnamedWith none))
        ["a.Top"]).errors = [] := by
  decide +kernel

end FrontEnd

end Adl
