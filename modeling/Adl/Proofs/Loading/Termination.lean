import Adl.Proofs.Loading.Stack
import Adl.Proofs.Reference.Unrolling

namespace Adl

open Step Context

/-! Loading ends. What loads start inside a load is bounded by the room that is left, so that
loading is what a finite unrolling of it does, whatever would take over further inside. -/

variable {frontEnd : FrontEnd} {name : String}

namespace FrontEnd

open Pairing

/-- Loading unrolled as often as given. Loads further inside are left to `escape`, and so are
those that would start while more than `bound` are in progress. -/
def loadUnrolled (frontEnd : FrontEnd) (escape : String → Loading DefinitionId) (bound : Nat) :
    Nat → String → Loading DefinitionId
  | 0, name => escape name
  | levels + 1, name =>
      LoadCache.around name fun context =>
        if bound < context.loading.length then escape name context
        else frontEnd.runStages (frontEnd.loadUnrolled escape bound levels) Stage.all name context

section Room

variable {held : Context} (runs : ∀ held, frontEnd.registry.RunsParallel (.steady held))
include runs

/-- Where there is an unrolling for each load that there is room for, nothing escapes. -/
theorem parallel_loadUnrolled (escape : String → Loading DefinitionId) {levels room : Nat}
    (deep : levelsLeft held < levels) (enough : levelsLeft held ≤ room) (name : String) :
    Parallel (.steady held)
      (frontEnd.loadUnrolled escape held.options.maxResolutionDepth levels name)
      (frontEnd.loadWithin room name) := by
  induction levels generalizing held room name with
  | zero => exact absurd deep (Nat.not_lt_zero _)
  | succ levels induction =>
      have entered (context : Context) (isHeld : held.SameStack context)
          (free : context.loading.length < context.options.maxResolutionDepth) :
          levelsLeft (LoadCache.entering context name) + 1 = levelsLeft held := by
        rw [LoadCache.levelsLeft_entering, ← isHeld.levelsLeft]
        exact Nat.sub_add_cancel (Nat.sub_pos_of_lt free)
      cases room with
      | zero =>
          refine parallel_around_steady fun context isHeld _ free => ?_
          have := entered context isHeld free
          omega
      | succ room =>
          refine parallel_around_steady fun context isHeld _ free => ?_
          have left := entered context isHeld free
          have stages : Parallel (.steady (LoadCache.entering context name))
              (frontEnd.runStages
                (frontEnd.loadUnrolled escape held.options.maxResolutionDepth levels)
                Stage.all name)
              (frontEnd.runStages (frontEnd.loadWithin room) Stage.all name) := by
            refine parallel_runStages (watches_steady _) (fun other => ?_) (runs _) Stage.all name
            have deeper : levelsLeft (LoadCache.entering context name) < levels := by omega
            rw [← isHeld.bound]
            exact induction deeper (by omega) other
          refine parallel_of_eq fun inside isInside => ?_
          have within : inside.loading.length ≤ held.options.maxResolutionDepth := by
            rw [isInside.loading, ← isHeld.bound, LoadCache.entering, List.length_append]
            exact free
          rw [if_neg (Nat.not_lt.mpr within)]
          exact eq_of_parallel stages isInside

/-- Room for more loads than are left makes no difference. -/
theorem parallel_loadWithin {room : Nat} (enough : levelsLeft held ≤ room) (name : String) :
    Parallel (.steady held) (frontEnd.loadWithin room name) (frontEnd.load name) := by
  refine parallel_of_eq fun context isHeld => ?_
  rw [← isHeld.levelsLeft] at enough
  have unrolled {room : Nat} (enough : levelsLeft context ≤ room) :=
    eq_of_parallel (parallel_loadUnrolled runs (fun _ => Step.fail .aborted)
      (Nat.lt_succ_self _) enough name) (.refl context)
  obtain ⟨wide, kept⟩ := unrolled enough
  obtain ⟨exactly, -⟩ := unrolled (Nat.le_refl _)
  rw [wide] at exactly kept
  exact ⟨exactly, kept⟩

/-- A load does what the stages do, with the same loads inside. -/
theorem parallel_load_around (name : String) :
    Parallel (.steady held) (frontEnd.load name)
      (LoadCache.around name (frontEnd.runStages frontEnd.load Stage.all name)) := by
  have wide : Parallel (.steady held) (frontEnd.loadWithin (levelsLeft held + 1) name)
      (LoadCache.around name (frontEnd.runStages frontEnd.load Stage.all name)) := by
    refine parallel_around_steady fun context isHeld _ _ => ?_
    have enough : levelsLeft (LoadCache.entering context name) ≤ levelsLeft held := by
      rw [LoadCache.levelsLeft_entering, ← isHeld.levelsLeft]
      exact Nat.sub_le _ _
    exact parallel_runStages (watches_steady _)
      (fun other => parallel_loadWithin runs enough other) (runs _) Stage.all name
  refine parallel_of_eq fun context isHeld => ?_
  obtain ⟨inTurn, kept⟩ := eq_of_parallel wide isHeld
  obtain ⟨exactly, -⟩ := eq_of_parallel (parallel_loadWithin runs (Nat.le_succ _) name) isHeld
  rw [exactly] at inTurn kept
  exact ⟨inTurn, kept⟩

end Room

/-- Loading ends: it is what the stages do that load in turn, and as many loads inside each other
as there is room for show all that it does. What would take over further inside, or where more
loads than allowed are in progress, makes no difference, and neither does what would resolve
references deeper than they are nested. -/
theorem loading_terminates (frontEnd : FrontEnd) (predefined : frontEnd.registry = .predefined)
    (context : Context) (name : String) :
    frontEnd.load name context =
        LoadCache.around name (frontEnd.runStages frontEnd.load Stage.all name) context ∧
      (frontEnd.load name context).2.loading = context.loading ∧
      (∀ escape levels, levelsLeft context < levels →
        frontEnd.load name context = frontEnd.loadUnrolled escape
          context.options.maxResolutionDepth levels name context) ∧
      ∀ load, Resolver.full frontEnd load =
          Resolver.ofLayers frontEnd load (Resolver.full frontEnd load) Resolver.layers ∧
        ∀ last scope context reference levels, reference.nesting < levels →
          Resolver.full frontEnd load scope (context, reference) =
            Resolver.unrolled frontEnd load last levels scope (context, reference) := by
  have runs (held : Context) : frontEnd.registry.RunsParallel (.steady held) :=
    predefined ▸ AnnotationRegistry.runsParallel_predefined (watches_steady held).views
  obtain ⟨inTurn, kept⟩ := eq_of_parallel (parallel_load_around runs name) (.refl context)
  refine ⟨inTurn, kept.loading, fun escape levels deep => ?_, fun load => ⟨?_, ?_⟩⟩
  · exact (eq_of_parallel (parallel_loadUnrolled runs escape deep (Nat.le_refl _) name)
      (.refl context)).1.symm
  · exact Resolver.full_eq_layers frontEnd load
  · exact fun last scope context reference _ =>
      Resolver.full_eq_unrolled last scope context reference

/-- Every definition is found, and holds a part of another definition with a longer name. -/
def endless : FrontEnd :=
  { registeredOnly with
    parser := some fun name _ _ =>
      let next : Component :=
        ⟨"next", some (.ofName (name ++ "x")), none, .generated, .none, none, false⟩
      .ok { Definition.ofKind name .composite with components := [next] }
    locator := some (.ofTexts fun name => some ⟨⟨name⟩, ""⟩) }

/-- With room for three, the fourth load inside the others fails, and nothing is left loading. -/
theorem endless_terminates :
    let context := Context.ofOptions { Options.default with maxResolutionDepth := 3 }
    endless.load "a" context =
        endless.loadUnrolled (fun _ => Step.fail .aborted) 3 4 "a" context ∧
      (endless.load "a" context).2.loading = [] ∧
      (endless.load "a" context).2.log.errors = [.error .cyclicDependency .generated
        "loading 'axxx' exceeds the maximum resolution depth of 3"] := by
  intro context
  obtain ⟨-, ended, unrolled, -⟩ := loading_terminates endless rfl context "a"
  exact ⟨unrolled _ 4 (by decide), ended, by decide +kernel⟩

end FrontEnd

end Adl
