import Adl.Loading.Context
import Adl.Proofs.Foundation.Table
import Adl.Proofs.Loading.Discipline

namespace Adl

/-! How the state of a compilation changes. Most steps only report: they leave alone what
is stored and what is known under which name. The others add to the tables and to the
arena, and write to no slot but the one that is being made. -/

/-- A diagnostic that ends a load is an error, not a warning. -/
def LoadError.IsGrave (error : LoadError) : Prop :=
  ∀ diagnostic, error = .fatal diagnostic → diagnostic.isError = true

theorem LoadError.isGrave_ofDiagnostic (kind : DiagnosticKind) (span : Span)
    (message : String) : (LoadError.ofDiagnostic kind span message).IsGrave := by
  intro diagnostic equal
  cases equal
  rfl

theorem LoadError.isGrave_aborted : LoadError.aborted.IsGrave :=
  fun _ equal => nomatch equal

theorem LoadError.isGrave_internal (error : InternalError) :
    (LoadError.internal error).IsGrave :=
  fun _ equal => nomatch equal

namespace Context

/-! ## Slots -/

theorem definition_push (context : Context) (added : Definition) {id : DefinitionId}
    (within : id < context.arena.size) :
    { context with arena := context.arena.push added }.definition id =
      context.definition id := by
  simp only [Context.definition, Array.getElem?_push, Nat.ne_of_lt within, if_false]

theorem definition_push_size (context : Context) (added : Definition) :
    { context with arena := context.arena.push added }.definition context.arena.size =
      added := by
  simp [Context.definition]

theorem definition_replace (context : Context) {id : DefinitionId} (changed : Definition)
    (within : id < context.arena.size) : (context.replace id changed).definition id = changed := by
  simp [Context.definition, Context.replace, within]

/-- What a slot beyond the arena is changed to is lost. -/
theorem definition_replace_of_beyond (context : Context) {id : DefinitionId} (changed : Definition)
    (beyond : ¬id < context.arena.size) :
    (context.replace id changed).definition id = context.definition id := by
  simp [Context.definition, Context.replace, beyond]

theorem definition_replace_of_ne (context : Context) {id other : DefinitionId}
    (changed : Definition) (different : id ≠ other) :
    (context.replace id changed).definition other = context.definition other := by
  simp [Context.definition, Context.replace, different]

/-! ## Reports and evolution -/

/-- The types that parameters have they keep. -/
def KeepsTypes (before after : Context) : Prop :=
  ∀ definition parameter type, before.inferredType? definition parameter = some type →
    after.inferredType? definition parameter = some type

/-- Only diagnostics, inferred types, source files and traces differ, and a type that a parameter
has it keeps. -/
structure Reports (before after : Context) : Prop where
  options : after.options = before.options
  arena : after.arena = before.arena
  cache : after.cache = before.cache
  loading : after.loading = before.loading
  registered : after.registered = before.registered
  registeredSources : after.registeredSources = before.registeredSources
  references : after.references = before.references
  policy : after.log.policy = before.log.policy
  errors : before.log.errors <+: after.log.errors
  types : before.KeepsTypes after

namespace Reports

variable {before after later : Context}

theorem refl (context : Context) : Reports context context :=
  ⟨rfl, rfl, rfl, rfl, rfl, rfl, rfl, rfl, List.prefix_refl _, fun _ _ _ => id⟩

theorem trans (first : Reports before after) (second : Reports after later) :
    Reports before later :=
  ⟨second.options.trans first.options, second.arena.trans first.arena,
    second.cache.trans first.cache, second.loading.trans first.loading,
    second.registered.trans first.registered,
    second.registeredSources.trans first.registeredSources,
    second.references.trans first.references, second.policy.trans first.policy,
    first.errors.trans second.errors, fun name parameter type found =>
      second.types name parameter type (first.types name parameter type found)⟩

theorem definition (reports : Reports before after) (id : DefinitionId) :
    after.definition id = before.definition id := by
  simp only [Context.definition, reports.arena]

end Reports

/-- A slot that no name asks to be made: if it is registered, it is under a name that is
loaded or being loaded. -/
def Protects (context : Context) (id : DefinitionId) : Prop :=
  ∀ name, context.registered.find? name = some id →
    (∃ loaded, context.cache.find? name = some loaded) ∨ name ∈ context.loading

/-- The names that are loaded stay loaded as they are and new ones come after them, the
registered names stay registered, what references were resolved to is not forgotten, and no
protected slot is written, except `own`. As long as there are no errors a definition never
loses its name, nor becomes or ceases to be generic. -/
structure Evolves (own : Option DefinitionId) (before after : Context) : Prop where
  options : after.options = before.options
  policy : after.log.policy = before.log.policy
  errors : before.log.errors <+: after.log.errors
  loading : after.loading = before.loading
  size : before.arena.size ≤ after.arena.size
  frame : ∀ id < before.arena.size, own ≠ some id → before.Protects id →
    after.definition id = before.definition id
  cache : before.cache.entries <+: after.cache.entries
  loaded : ∀ name id, after.cache.find? name = some id →
    before.cache.find? name = some id ∨
      name ∉ before.loading ∧
        (after.registered.find? name = some id ∨ before.arena.size ≤ id)
  registered : ∀ name id, before.registered.find? name = some id →
    after.registered.find? name = some id
  fresh : ∀ name id, after.registered.find? name = some id →
    before.registered.find? name = some id ∨ before.arena.size ≤ id
  references : ∀ key id, before.references.find? key = some id →
    after.references.find? key = some id
  shapes : after.log.errors = [] → ∀ id < before.arena.size,
    (after.definition id).name = (before.definition id).name ∧
      (after.definition id).isGeneric = (before.definition id).isGeneric

namespace Evolves

variable {own : Option DefinitionId} {before after later : Context}

theorem refl (context : Context) : Evolves own context context where
  options := rfl
  policy := rfl
  errors := List.prefix_refl _
  loading := rfl
  size := Nat.le_refl _
  frame _ _ _ _ := rfl
  cache := List.prefix_refl _
  loaded _ _ found := .inl found
  registered _ _ found := found
  fresh _ _ found := .inl found
  references _ _ found := found
  shapes _ _ _ := ⟨rfl, rfl⟩

theorem errors_eq_nil (evolves : Evolves own before after) (silent : after.log.errors = []) :
    before.log.errors = [] :=
  List.prefix_nil.mp (silent ▸ evolves.errors)

theorem find?_cache (evolves : Evolves own before after) {name : String} {id : DefinitionId}
    (found : before.cache.find? name = some id) : after.cache.find? name = some id :=
  Table.find?_of_prefix evolves.cache found

/-- What protects a slot lasts: names registered later have later slots. -/
theorem protects (evolves : Evolves own before after) {id : DefinitionId}
    (within : id < before.arena.size) (guarded : before.Protects id) :
    after.Protects id := by
  intro name found
  rcases evolves.fresh name id found with known | beyond
  · rcases guarded name known with ⟨loaded, cached⟩ | loading
    · exact .inl ⟨loaded, evolves.find?_cache cached⟩
    · exact .inr (evolves.loading ▸ loading)
  · exact absurd within (Nat.not_lt.mpr beyond)

theorem trans (first : Evolves own before after) (second : Evolves own after later) :
    Evolves own before later where
  options := second.options.trans first.options
  policy := second.policy.trans first.policy
  errors := first.errors.trans second.errors
  loading := second.loading.trans first.loading
  size := Nat.le_trans first.size second.size
  frame id within different guarded :=
    (second.frame id (Nat.lt_of_lt_of_le within first.size) different
      (first.protects within guarded)).trans (first.frame id within different guarded)
  cache := first.cache.trans second.cache
  loaded name id found := by
    rcases second.loaded name id found with known | ⟨notLoading, origin⟩
    · rcases first.loaded name id known with known | ⟨notLoading, origin⟩
      · exact .inl known
      · exact .inr ⟨notLoading, origin.imp_left (second.registered name id)⟩
    · have size := first.size
      exact .inr ⟨first.loading ▸ notLoading, origin.imp_right (Nat.le_trans size)⟩
  registered name id found := second.registered name id (first.registered name id found)
  fresh name id found := by
    rcases second.fresh name id found with known | beyond
    · exact first.fresh name id known
    · exact .inr (Nat.le_trans first.size beyond)
  references key id found := second.references key id (first.references key id found)
  shapes silent id within := by
    have later := second.shapes silent id (Nat.lt_of_lt_of_le within first.size)
    have earlier := first.shapes (second.errors_eq_nil silent) id within
    exact ⟨later.1.trans earlier.1, later.2.trans earlier.2⟩

/-- A step that writes no slot under work can be taken while one is. -/
theorem weaken (evolves : Evolves none before after) : Evolves own before after :=
  { evolves with frame := fun id within _ => evolves.frame id within nofun }

theorem ofReports (reports : Reports before after) : Evolves own before after where
  options := reports.options
  policy := reports.policy
  errors := reports.errors
  loading := reports.loading
  size := by rw [reports.arena]
  frame id _ _ _ := reports.definition id
  cache := by rw [reports.cache]
  loaded name id found := .inl (by rw [← reports.cache, found])
  registered name id found := by rw [reports.registered, found]
  fresh name id found := .inl (by rw [← reports.registered, found])
  references key id found := by rw [reports.references, found]
  shapes _ id _ := by
    rw [reports.definition]
    exact ⟨rfl, rfl⟩

theorem errors_ne_nil (evolves : Evolves own before after) (present : before.log.errors ≠ []) :
    after.log.errors ≠ [] :=
  fun silent => present (evolves.errors_eq_nil silent)

theorem push (context : Context) (added : Definition) :
    Evolves own context { context with arena := context.arena.push added } :=
  { (refl context : Evolves own context context) with
    size := by
      change context.arena.size ≤ (context.arena.push added).size
      rw [Array.size_push]
      exact Nat.le_succ _
    frame := fun _ within _ _ => definition_push context added within
    shapes := by
      intro _ id within
      rw [definition_push context added within]
      exact ⟨rfl, rfl⟩ }

/-- A name becomes known with a new slot. -/
theorem register (context : Context) {name : String} (added : Definition)
    (unknown : context.registered.find? name = none) :
    Evolves own context (context.register name added).2 :=
  { (push context added : Evolves own context _) with
    loaded := fun _ _ found => .inl found
    registered := by
      intro other id found
      have different : name ≠ other := by
        rintro rfl
        exact nomatch unknown.symm.trans found
      exact (Table.find?_insert ..).trans ((if_neg different).trans found)
    fresh := by
      intro other id found
      change (context.registered.insert name context.arena.size).find? other = some id at found
      rw [Table.find?_insert] at found
      split at found
      · cases found
        exact .inr (Nat.le_refl _)
      · exact .inl found }

theorem replace {context : Context} {id : DefinitionId} {changed : Definition}
    (same : context.log.errors = [] → changed.name = (context.definition id).name ∧
      changed.isGeneric = (context.definition id).isGeneric) :
    Evolves (some id) context (context.replace id changed) :=
  { (refl context : Evolves (some id) context context) with
    size := by
      change context.arena.size ≤ (context.arena.setIfInBounds id changed).size
      rw [Array.size_setIfInBounds]
    frame := fun _ _ different _ =>
      definition_replace_of_ne context changed fun equal => different (congrArg some equal)
    shapes := by
      intro silent other within
      by_cases own : id = other
      · cases own
        rw [definition_replace context changed within]
        exact same silent
      · rw [definition_replace_of_ne context changed own]
        exact ⟨rfl, rfl⟩ }

end Evolves

theorem Reports.evolves {before after : Context} (reports : Reports before after) :
    Evolves none before after :=
  .ofReports reports

end Context

end Adl
