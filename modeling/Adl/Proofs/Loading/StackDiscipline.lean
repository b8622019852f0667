import Adl.Proofs.Loading.Termination

namespace Adl

open Step Context

/-! The cache takes a load back when it cannot end, and tells why: the name is already on the
stack, or the stack is full. Every load, however deep inside others, leaves the stack as it was
and does not cache the name if it fails. -/

variable {frontEnd : FrontEnd} {context : Context} {name : String}

namespace LoadCache

/-! ## Loads that the cache refuses -/

/-- The cache ends the load of a name with the error, whatever the stages inside it would do. -/
def RefusesLoad (context : Context) (name : String) (error : LoadError) : Prop :=
  ∀ inner : Loading DefinitionId, around name inner context = (.error error, context)

theorem refusesLoad_iff {error : LoadError} :
    RefusesLoad context name error ↔
      context.cache.find? name = none ∧
        (name ∈ context.loading ∧ error = cycle context.loading name ∨
          name ∉ context.loading ∧
            context.options.maxResolutionDepth ≤ context.loading.length ∧
            error = tooDeep name context.options.maxResolutionDepth) := by
  constructor
  · intro refuses
    -- Stages that succeed tell whether they are asked.
    have refused := refuses (Pure.pure 0)
    cases found : context.cache.find? name with
    | some id =>
        rw [around_of_found _ found] at refused
        cases refused
    | none =>
        refine ⟨rfl, ?_⟩
        by_cases loading : name ∈ context.loading
        · rw [around_of_loading _ found loading] at refused
          cases refused
          exact .inl ⟨loading, rfl⟩
        by_cases room : context.loading.length < context.options.maxResolutionDepth
        · rw [around_of_absent _ found loading room] at refused
          cases refused
        · have full := Nat.le_of_not_lt room
          rw [around_of_full _ found loading full] at refused
          cases refused
          exact .inr ⟨loading, full, rfl⟩
  · rintro ⟨absent, ⟨loading, rfl⟩ | ⟨notLoading, full, rfl⟩⟩ inner
    · exact around_of_loading inner absent loading
    · exact around_of_full inner absent notLoading full

theorem cycle_ne_tooDeep {loading : List String} {name other : String} {bound : Nat} :
    cycle loading name ≠ tooDeep other bound := by
  intro equal
  injection equal with equal
  injection equal with _ _ _ messages
  have heads := congrArg (fun message => message.toList.head?) messages
  simp [String.toList_append] at heads

theorem refusesLoad_cycle_iff :
    RefusesLoad context name (cycle context.loading name) ↔
      context.cache.find? name = none ∧ name ∈ context.loading := by
  rw [refusesLoad_iff]
  constructor
  · rintro ⟨absent, ⟨loading, -⟩ | ⟨-, -, equal⟩⟩
    · exact ⟨absent, loading⟩
    · exact absurd equal cycle_ne_tooDeep
  · rintro ⟨absent, loading⟩
    exact ⟨absent, .inl ⟨loading, rfl⟩⟩

theorem refusesLoad_tooDeep_iff :
    RefusesLoad context name (tooDeep name context.options.maxResolutionDepth) ↔
      context.cache.find? name = none ∧ name ∉ context.loading ∧
        context.options.maxResolutionDepth ≤ context.loading.length := by
  rw [refusesLoad_iff]
  constructor
  · rintro ⟨absent, ⟨-, equal⟩ | ⟨notLoading, full, -⟩⟩
    · exact absurd equal.symm cycle_ne_tooDeep
    · exact ⟨absent, notLoading, full⟩
  · rintro ⟨absent, notLoading, full⟩
    exact ⟨absent, .inr ⟨notLoading, full, rfl⟩⟩

/-- The path of a cycle leads from the name, where it stands on the stack, to the name again. -/
theorem cycle_of_append {loading outer inner : List String}
    (stack : loading = outer ++ name :: inner) (first : name ∉ outer) :
    cycle loading name = .ofDiagnostic .cyclicDependency .generated
      ("cyclic dependency: " ++ " -> ".intercalate (name :: inner ++ [name])) := by
  have dropped : loading.dropWhile (· != name) = name :: inner := by
    rw [stack, List.dropWhile_append_of_pos]
    · simp
    · intro other member
      exact bne_iff_ne.mpr fun equal => first (equal ▸ member)
  rw [cycle, dropped]

/-! ## Loads that keep the stack -/

/-- How a load may end: the stack is what it was, and a name that failed is not cached. -/
structure KeepsStack (name : String) (context : Context)
    (ended : Except LoadError DefinitionId × Context) : Prop where
  restored : ended.2.loading = context.loading
  uncached : ∀ error, ended.1 = .error error → ended.2.cache.find? name = none

/-- The cache keeps the stack if the stages inside it do. -/
theorem keepsStack_around {inner : Loading DefinitionId}
    (same : name ∉ context.loading →
      context.loading.length < context.options.maxResolutionDepth →
      (entering context name).SameStack (inner (entering context name)).2) :
    KeepsStack name context (around name inner context) := by
  cases found : context.cache.find? name with
  | some id =>
      rw [around_of_found inner found]
      exact ⟨rfl, by simp⟩
  | none =>
      by_cases loading : name ∈ context.loading
      · rw [around_of_loading inner found loading]
        exact ⟨rfl, fun _ _ => found⟩
      by_cases room : context.loading.length < context.options.maxResolutionDepth
      · have kept := same loading room
        rw [around_of_absent inner found loading room]
        rcases outcome : inner (entering context name) with ⟨result, reached⟩
        rw [outcome] at kept
        have left := sameStack_leaving loading kept
        cases result with
        | ok id => exact ⟨left.loading, by simp⟩
        | error error =>
            refine ⟨left.loading, fun _ _ => ?_⟩
            exact (kept.cached name (List.mem_append_right _ List.mem_cons_self)).trans found
      · rw [around_of_full inner found loading (Nat.le_of_not_lt room)]
        exact ⟨rfl, fun _ _ => found⟩

/-- A load that must find each name on the stack once and keep the stack: where it does not, a
given error takes the place of its outcome. -/
noncomputable def watching (violation : LoadError) (name : String)
    (load : Loading DefinitionId) : Loading DefinitionId := fun context =>
  open Classical in
  if context.loading.Nodup ∧ KeepsStack name context (load context) then load context
  else (.error violation, (load context).2)

end LoadCache

namespace FrontEnd

open LoadCache Pairing

/-- Loading where every load, also those that stages ask for, is watched. -/
noncomputable def loadWatched (frontEnd : FrontEnd) (violation : LoadError) :
    Nat → String → Loading DefinitionId
  | 0, name => watching violation name <| around name do
      let context ← Loading.context
      Step.fail (tooDeep name context.options.maxResolutionDepth)
  | levels + 1, name =>
      watching violation name <|
        around name (frontEnd.runStages (frontEnd.loadWatched violation levels) Stage.all name)

noncomputable def watchedLoad (frontEnd : FrontEnd) (violation : LoadError) (name : String) :
    Loading DefinitionId := do
  frontEnd.loadWatched violation (levelsLeft (← Loading.context)) name

section Runs

variable {held : Context} (runs : ∀ held, frontEnd.registry.RunsParallel (.steady held))
include runs

omit runs in
/-- Watching a load makes no difference if the stages inside the cache keep the stack. -/
theorem parallel_watching {inner twin : Loading DefinitionId} (violation : LoadError)
    (nodup : held.loading.Nodup)
    (agree : ∀ context, held.SameStack context → name ∉ context.loading →
      context.loading.length < context.options.maxResolutionDepth →
      Parallel (steady (entering context name)) inner twin) :
    Parallel (steady held) (watching violation name (around name inner)) (around name twin) := by
  have unwatched := parallel_around_steady agree
  refine parallel_of_eq fun context isHeld => ?_
  obtain ⟨same, kept⟩ := eq_of_parallel unwatched isHeld
  have keeps : KeepsStack name context (around name inner context) :=
    keepsStack_around fun notLoading room =>
      (eq_of_parallel (agree context isHeld notLoading room) (.refl _)).2
  have passes : watching violation name (around name inner) context = around name inner context :=
    if_pos ⟨isHeld.loading ▸ nodup, keeps⟩
  rw [passes]
  exact ⟨same, kept⟩

/-- No load inside another is one that finds a name twice on the stack or changes the stack. -/
theorem parallel_loadWatched (violation : LoadError) (levels : Nat) (nodup : held.loading.Nodup)
    (name : String) :
    Parallel (steady held) (frontEnd.loadWatched violation levels name)
      (frontEnd.loadWithin levels name) := by
  induction levels generalizing held name with
  | zero =>
      exact parallel_watching violation nodup fun context _ _ _ =>
        (watches_steady _).views.context (fun _ _ _ => rfl) fun _ => .fail _
  | succ levels induction =>
      refine parallel_watching violation nodup fun context isHeld notLoading _ => ?_
      have entered : (entering context name).loading.Nodup := by
        refine List.nodup_append.mpr ⟨isHeld.loading ▸ nodup, by simp, ?_⟩
        rintro other member _ isLast rfl
        exact notLoading (List.mem_singleton.mp isLast ▸ member)
      exact parallel_runStages (watches_steady _) (fun other => induction entered other) (runs _)
        Stage.all name

theorem parallel_load_steady (name : String) :
    Parallel (steady held) (frontEnd.load name) (frontEnd.load name) :=
  parallel_of_eq fun _ isHeld =>
    ⟨rfl, (eq_of_parallel (parallel_load_around runs name) isHeld).2⟩

theorem keepsStack_load (context : Context) (name : String) :
    KeepsStack name context (frontEnd.load name context) := by
  rw [(eq_of_parallel (parallel_load_around runs name) (.refl context)).1]
  refine keepsStack_around fun _ _ => ?_
  have stages := parallel_runStages (watches_steady (entering context name))
    (parallel_load_steady runs) (runs _) Stage.all name
  exact (eq_of_parallel stages (.refl _)).2

/-- Whatever is asked for, the stack is afterwards what it was. -/
theorem sameStack_request (context : Context) (request : Request) :
    context.SameStack (request.run frontEnd frontEnd.load context).2 := by
  have watches := watches_steady context
  have loads (name : String) :
      Parallel (steady context) (frontEnd.load name) (frontEnd.load name) :=
    parallel_load_steady runs name
  cases request with
  | load name =>
      exact (eq_of_parallel (.bind (loads name) fun _ => .pure _) (.refl context)).2
  | resolve scope reference =>
      have resolves := Resolver.pairs_full watches.views loads (watches.makes loads (runs context)) scope
      rcases resolves.along (context, reference) (context, reference) ⟨⟨rfl, .refl context⟩, rfl⟩
        with ⟨-, ⟨-, kept⟩, -⟩ | ⟨-, stopped⟩
      · exact kept
      · exact stopped.elim
  | instantiate request =>
      have instantiates := InstanceRequest.parallel_load loads request (runs context) watches.toObserves
      exact (eq_of_parallel (.bind instantiates fun _ => .pure _) (.refl context)).2

theorem sameStack_after (requests : List Request) (context : Context) :
    context.SameStack (frontEnd.after requests context) := by
  induction requests generalizing context with
  | nil => exact .refl context
  | cons request rest induction =>
      exact (sameStack_request runs context request).trans (induction _)

end Runs

/-- A load does what the stages inside the cache do, with the same loads inside. Whatever its
outcome, the stack is afterwards what it was, and a name that failed is not cached. The cache
refuses a load with a cycle exactly if the name is not cached and on the stack, and the error
then tells the path from there to the name again; it refuses it for its depth exactly if the name
is neither cached nor on the stack, and the stack is full. All of this is also so for the loads
inside: none of them finds a name twice on the stack, or changes the stack, or caches a name that
failed, or an error would take the place of the outcome. So the stack lasts over any requests. -/
theorem loading_keeps_stack (frontEnd : FrontEnd) (predefined : frontEnd.registry = .predefined)
    (context : Context) (name : String) :
    let ended := frontEnd.load name context
    ended = around name (frontEnd.runStages frontEnd.load Stage.all name) context ∧
      KeepsStack name context ended ∧
      (RefusesLoad context name (cycle context.loading name) ↔
        context.cache.find? name = none ∧ name ∈ context.loading) ∧
      (∀ outer inner, context.loading = outer ++ name :: inner → name ∉ outer →
        cycle context.loading name = .ofDiagnostic .cyclicDependency .generated
          ("cyclic dependency: " ++ " -> ".intercalate (name :: inner ++ [name]))) ∧
      (RefusesLoad context name (tooDeep name context.options.maxResolutionDepth) ↔
        context.cache.find? name = none ∧ name ∉ context.loading ∧
          context.options.maxResolutionDepth ≤ context.loading.length) ∧
      (context.loading.Nodup → ∀ violation, frontEnd.watchedLoad violation name context = ended) ∧
      ∀ requests, (frontEnd.after requests context).loading = context.loading := by
  intro ended
  have runs (held : Context) : frontEnd.registry.RunsParallel (.steady held) :=
    predefined ▸ AnnotationRegistry.runsParallel_predefined (watches_steady held).views
  refine ⟨?_, keepsStack_load runs context name, refusesLoad_cycle_iff, ?_, refusesLoad_tooDeep_iff,
    ?_, ?_⟩
  · exact (eq_of_parallel (parallel_load_around runs name) (.refl context)).1
  · exact fun _ _ stack first => cycle_of_append stack first
  · exact fun nodup violation =>
      (eq_of_parallel (parallel_loadWatched runs violation _ nodup name) (.refl context)).1
  · exact fun requests => (sameStack_after runs requests context).loading

/-- Two composites that contain each other. -/
def nestedInEachOther : Context :=
  let containing (name inner : String) : Definition :=
    let part : Component := ⟨"part", some (.ofName inner), none, .generated, .none, none, false⟩
    { Definition.ofKind name .composite with components := [part] }
  .ofDefinitions .default [containing "a.A" "a.B", containing "a.B" "a.A"]

/-- The load of the first refuses the load of the first inside the second, and leaves nothing
loading. -/
theorem nested_keeps_stack :
    let inside := { nestedInEachOther with loading := ["a.A", "a.B"] }
    (∀ violation, registeredOnly.watchedLoad violation "a.A" nestedInEachOther =
        registeredOnly.load "a.A" nestedInEachOther) ∧
      (registeredOnly.load "a.A" nestedInEachOther).2.loading = [] ∧
      RefusesLoad inside "a.A" (.ofDiagnostic .cyclicDependency .generated
        "cyclic dependency: a.A -> a.B -> a.A") ∧
      (registeredOnly.load "a.A" nestedInEachOther).2.log.errors =
        [.error .cyclicDependency .generated "cyclic dependency: a.A -> a.B -> a.A"] := by
  intro inside
  obtain ⟨-, keeps, -, -, -, watched, -⟩ :=
    loading_keeps_stack registeredOnly rfl nestedInEachOther "a.A"
  obtain ⟨-, -, refuses, path, -⟩ := loading_keeps_stack registeredOnly rfl inside "a.A"
  have nothing : nestedInEachOther.loading = [] := by decide +kernel
  have absent : inside.cache.find? "a.A" = none := by decide +kernel
  have refused := refuses.mpr ⟨absent, List.mem_cons_self⟩
  rw [path [] ["a.B"] rfl List.not_mem_nil] at refused
  have restored := keeps.restored
  rw [nothing] at restored watched
  exact ⟨watched List.nodup_nil, restored, refused, by decide +kernel⟩

end FrontEnd

end Adl
