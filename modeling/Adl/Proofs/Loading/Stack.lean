import Adl.Proofs.Loading.CacheCoherence
import Adl.Proofs.Loading.ParallelStages

namespace Adl

open Step Context

/-! The stack of the names that are being loaded. Whatever a load does, the stack is afterwards
what it was, and the names on it are cached only if they were. -/

variable {α : Type} {name : String}

/-- As far as the names that are loading go, a context is as `held`: the same ones are, there is
room for as many, and the cache says the same of them. -/
structure Context.SameStack (held reached : Context) : Prop where
  loading : reached.loading = held.loading
  bound : reached.options.maxResolutionDepth = held.options.maxResolutionDepth
  cached : ∀ name ∈ held.loading, reached.cache.find? name = held.cache.find? name

namespace Context.SameStack

variable {held reached after : Context}

theorem refl (context : Context) : SameStack context context :=
  ⟨rfl, rfl, fun _ _ => rfl⟩

theorem symm (same : SameStack held reached) : SameStack reached held :=
  ⟨same.loading.symm, same.bound.symm, fun name member =>
    (same.cached name (same.loading ▸ member)).symm⟩

theorem trans (first : SameStack held reached) (second : SameStack reached after) :
    SameStack held after where
  loading := second.loading.trans first.loading
  bound := second.bound.trans first.bound
  cached name member :=
    (second.cached name (first.loading ▸ member)).trans (first.cached name member)

theorem levelsLeft (same : SameStack held reached) :
    FrontEnd.levelsLeft reached = FrontEnd.levelsLeft held := by
  rw [FrontEnd.levelsLeft, same.loading, same.bound, FrontEnd.levelsLeft]

end Context.SameStack

namespace LoadCache

variable {context reached : Context}

theorem levelsLeft_entering (context : Context) (name : String) :
    FrontEnd.levelsLeft (entering context name) = FrontEnd.levelsLeft context - 1 := by
  have length : (entering context name).loading.length = context.loading.length + 1 :=
    List.length_append
  rw [FrontEnd.levelsLeft, length, Nat.sub_add_eq]
  rfl

/-- When the load of a name ends, the name is taken off the stack again. -/
theorem sameStack_leaving (notLoading : name ∉ context.loading)
    (same : (entering context name).SameStack reached) :
    context.SameStack (leaving reached name) where
  loading := by
    change reached.loading.erase name = context.loading
    rw [same.loading, entering, List.erase_append_right _ notLoading]
    simp
  bound := same.bound
  cached other member := same.cached other (List.mem_append_left _ member)

/-- A name that is not on the stack can be cached. -/
theorem sameStack_insert (notLoading : name ∉ context.loading) (id : DefinitionId)
    (same : context.SameStack reached) :
    context.SameStack { reached with cache := reached.cache.insert name id } where
  loading := same.loading
  bound := same.bound
  cached other member := by
    have different : name ≠ other := fun equal => notLoading (equal ▸ member)
    exact (Table.find?_insert ..).trans ((if_neg different).trans (same.cached other member))

end LoadCache

/-! ## Runs with the same stack -/

/-- Two runs of the same compilation in which the same names are loading as in `held`. -/
def Pairing.steady (held : Context) : Pairing Context where
  Related left right := left = right ∧ held.SameStack left
  Stopped _ _ := False

namespace Pairing

variable {held context : Context}

theorem keeps_steady {change : Context → Context} (isQuiet : IsQuiet change) :
    (steady held).Keeps change where
  related := by
    rintro l _ ⟨rfl, same⟩
    exact ⟨rfl, (isQuiet.loading l).trans same.loading, by rw [isQuiet.options, same.bound],
      fun name member => by rw [isQuiet.cache, same.cached name member]⟩
  stoppedLeft _ _ := id
  stoppedRight _ _ := id

theorem watches_steady (held : Context) : (steady held).Watches where
  blind := by
    rintro l _ ⟨rfl, -⟩
    exact ⟨l.options.errorPolicy, l.log.policy, rfl⟩
  keeps _ isQuiet _ := keeps_steady isQuiet
  writes id definition := keeps_steady (isQuiet_replace id definition)
  records diagnostic :=
    { along := by
        rintro l _ ⟨rfl, same⟩
        exact .inl ⟨rfl, rfl, same.loading, same.bound, same.cached⟩
      alone := fun _ _ => id }

/-- Steps that run in parallel from the same state do the same, and keep the stack. -/
theorem eq_of_parallel {left right : Loading α} (parallel : Parallel (steady held) left right)
    (isHeld : held.SameStack context) :
    left context = right context ∧ context.SameStack (left context).2 := by
  rcases parallel.along context context ⟨rfl, isHeld⟩ with
    ⟨sameResult, sameState, kept⟩ | ⟨-, stopped⟩
  · exact ⟨Prod.ext sameResult sameState, isHeld.symm.trans kept⟩
  · exact stopped.elim

/-- What does the same from each state with the stack, and keeps it, runs in parallel. -/
theorem parallel_of_eq {left right : Loading α}
    (same : ∀ context, held.SameStack context →
      left context = right context ∧ context.SameStack (left context).2) :
    Parallel (steady held) left right where
  along := by
    rintro context _ ⟨rfl, isHeld⟩
    obtain ⟨equal, kept⟩ := same context isHeld
    exact .inl ⟨congrArg Prod.fst equal, congrArg Prod.snd equal, isHeld.trans kept⟩
  alone _ _ := id

/-- Inside the cache one more name is on the stack, where there was room for it. -/
theorem parallel_around_steady {inner twin : Loading DefinitionId}
    (agree : ∀ context, held.SameStack context → name ∉ context.loading →
      context.loading.length < context.options.maxResolutionDepth →
      Parallel (steady (LoadCache.entering context name)) inner twin) :
    Parallel (steady held) (LoadCache.around name inner) (LoadCache.around name twin) := by
  refine parallel_of_eq fun context isHeld => ?_
  cases found : context.cache.find? name with
  | some id =>
      rw [LoadCache.around_of_found inner found, LoadCache.around_of_found twin found]
      exact ⟨rfl, .refl context⟩
  | none =>
      by_cases isLoading : name ∈ context.loading
      · rw [LoadCache.around_of_loading inner found isLoading,
          LoadCache.around_of_loading twin found isLoading]
        exact ⟨rfl, .refl context⟩
      by_cases room : context.loading.length < context.options.maxResolutionDepth
      · obtain ⟨same, kept⟩ := eq_of_parallel (agree context isHeld isLoading room) (.refl _)
        rw [LoadCache.around_of_absent inner found isLoading room,
          LoadCache.around_of_absent twin found isLoading room, ← same]
        rcases outcome : inner (LoadCache.entering context name) with ⟨result, reached⟩
        rw [outcome] at kept
        have left := LoadCache.sameStack_leaving isLoading kept
        cases result with
        | ok id => exact ⟨rfl, LoadCache.sameStack_insert isLoading id left⟩
        | error error => exact ⟨rfl, left⟩
      · have full := Nat.le_of_not_lt room
        rw [LoadCache.around_of_full inner found isLoading full,
          LoadCache.around_of_full twin found isLoading full]
        exact ⟨rfl, .refl context⟩

end Pairing

end Adl
