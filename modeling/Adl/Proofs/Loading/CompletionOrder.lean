import Adl.Proofs.Loading.CacheCoherence
import Mathlib.Logic.Relation

namespace Adl

open Step Context

/-! The order in which loads are completed. A definition is loaded after the definitions
that its sub-components designate, so no definition contains itself. -/

variable {strict : Prop} {frontEnd : FrontEnd} {context : Context}

namespace Context

/-- Decorations designate definitions that were loaded before, under the recorded name. -/
def InCompletionOrder (context : Context) : Prop :=
  ∀ (position : Nat) name id, context.cache.entries[position]? = some (name, id) →
    ∀ component ∈ (context.definition id).components,
    ∀ resolved, component.resolved = some resolved →
    ∃ earlier < position, ∃ target : DefinitionId, resolved.id = some target ∧
      context.cache.entries[earlier]? = some (resolved.name, target)

/-- Every sub-component that names a definition designates a loaded one, which can be
instantiated. -/
def IsFullyResolved (context : Context) : Prop :=
  ∀ name id, context.cache.find? name = some id →
    ∀ component ∈ (context.definition id).components, component.definition.isSome = true →
    ∃ resolved target, component.resolved = some resolved ∧ resolved.id = some target ∧
      context.cache.find? resolved.name = some target ∧
      (context.definition target).isType = false ∧
      (context.definition target).isAbstract = false

/-- One loaded definition has a sub-component that designates another. -/
def Contains (context : Context) (id target : DefinitionId) : Prop :=
  context.Loaded id ∧
    ∃ component ∈ (context.definition id).components, component.resolvedId? = some target

theorem Sound.inCompletionOrder (sound : context.Sound True) : context.InCompletionOrder := by
  intro position name id found component member resolved decorated
  exact sound.ordered trivial position name id found component.link
    (List.mem_map_of_mem member) resolved decorated

theorem Sound.isFullyResolved (sound : context.Sound True) (noErrors : context.log.errors = []) :
    context.IsFullyResolved := by
  intro name id found component member named
  have link := List.mem_map_of_mem (f := Component.link) member
  rcases sound.complete trivial name id found component.link link named with present | reported
  · obtain ⟨resolved, decorated⟩ := Option.isSome_iff_exists.mp present
    obtain ⟨target, isTarget, loaded, notType, notAbstract⟩ :=
      sound.linked trivial id (sound.loaded_lt name id found) component.link link resolved decorated
    exact ⟨resolved, target, decorated, isTarget, loaded, notType, notAbstract⟩
  · exact absurd noErrors reported

theorem Sound.earlier_of_contains (sound : context.Sound True) {id target : DefinitionId}
    (contains : context.Contains id target) {place : Nat} {name : String}
    (found : context.cache.entries[place]? = some (name, id)) :
    ∃ earlier < place, ∃ other, context.cache.entries[earlier]? = some (other, target) := by
  obtain ⟨-, component, member, designates⟩ := contains
  obtain ⟨resolved, decorated, isTarget⟩ := Option.bind_eq_some_iff.mp designates
  obtain ⟨earlier, less, other, isOther, entry⟩ :=
    sound.inCompletionOrder place name id found component member resolved decorated
  cases isOther.symm.trans isTarget
  exact ⟨earlier, less, resolved.name, entry⟩

/-- What is contained at any depth was loaded before. -/
theorem Sound.earlier_of_path (sound : context.Sound True) {id target : DefinitionId}
    (path : Relation.TransGen context.Contains id target) {place : Nat} {name : String}
    (found : context.cache.entries[place]? = some (name, id)) :
    ∃ earlier < place, ∃ other, context.cache.entries[earlier]? = some (other, target) := by
  induction path with
  | single contains => exact sound.earlier_of_contains contains found
  | tail _ contains induction =>
      obtain ⟨between, lessBetween, nameBetween, foundBetween⟩ := induction
      obtain ⟨earlier, less, other, entry⟩ := sound.earlier_of_contains contains foundBetween
      exact ⟨earlier, less.trans lessBetween, other, entry⟩

/-- No definition contains itself, however indirectly. -/
theorem Sound.acyclic (sound : context.Sound True) (id : DefinitionId) :
    ¬Relation.TransGen context.Contains id id := by
  intro cycle
  have nowhere : ∀ (place : Nat) (name : String),
      context.cache.entries[place]? ≠ some (name, id) := by
    intro place
    induction place using Nat.strong_induction_on with
    | _ place induction =>
        intro name found
        obtain ⟨earlier, less, other, entry⟩ := sound.earlier_of_path cycle found
        exact induction earlier less other entry
  have loaded : context.Loaded id := by
    rcases Relation.TransGen.head'_iff.mp cycle with ⟨_, contains, -⟩
    exact contains.1
  obtain ⟨name, found⟩ := loaded
  obtain ⟨place, within, entry⟩ := List.getElem_of_mem (Table.mem_entries_of_find? found)
  exact nowhere place name (entry ▸ List.getElem?_eq_getElem within)

end Context

/-! ## Compilations -/

namespace FrontEnd

/-- The context after the loads of a list of names. -/
def afterLoads (frontEnd : FrontEnd) (names : List String) (context : Context) : Context :=
  names.foldl (fun context name => (frontEnd.load name context).2) context

theorem sound_afterLoads (harmless : frontEnd.registry.IsHarmless)
    (plain : frontEnd.ParsesPlainly) (names : List String) (sound : context.Sound True) :
    (frontEnd.afterLoads names context).Sound True := by
  induction names generalizing context with
  | nil => exact sound
  | cons name rest induction =>
      have loads : Loads frontEnd True (fun _ => True) frontEnd.load _ :=
        loads_load harmless (fun _ => plain) .aborted fun _ _ _ _ => trivial
      exact induction (loads name context sound trivial).valid.1

theorem agree_loadRoot (harmless : frontEnd.registry.IsHarmless)
    (plain : strict → frontEnd.ParsesPlainly) (name : String) (sound : context.Sound strict) :
    Agree (evolving frontEnd strict none fun _ => True) context (frontEnd.loadRoot name)
      (frontEnd.loadRoot name) fun _ _ => True := by
  have lasts : Lasts frontEnd strict fun _ => True := fun _ _ _ _ => trivial
  have loads : Loads frontEnd strict (fun _ => True) frontEnd.load _ :=
    loads_load harmless plain .aborted lasts
  refine .bind (loads name context sound trivial).self.outcome ?_
  intro result reached valid _ ended
  cases result with
  | ok id => exact .pure valid trivial
  | error error =>
      cases error with
      | fatal diagnostic =>
          refine .through (fun _ _ => True)
            ((Loading.agree_record diagnostic).reported valid.1 trivial lasts).forget ?_
          intro _ later valid _ _
          exact .pure valid trivial
      | aborted => exact .through (fun _ _ => False) (.fail valid ended) fun _ _ _ _ => False.elim
      | internal error =>
          exact .through (fun _ _ => False) (.fail valid ended) fun _ _ _ _ => False.elim

theorem agree_loadRoots (harmless : frontEnd.registry.IsHarmless)
    (plain : strict → frontEnd.ParsesPlainly) (names : List String)
    (sound : context.Sound strict) (roots : List DefinitionId) :
    Agree ((evolving frontEnd strict none fun _ => True).drafting fun _ _ => True) (context, roots)
      (frontEnd.loadRoots names) (frontEnd.loadRoots names) fun _ _ => True := by
  induction names generalizing context roots with
  | nil => exact .pure ⟨⟨sound, trivial⟩, trivial⟩ trivial
  | cons name rest induction =>
      refine Drafting.agree_lift_bind (Discipline.lasting_const _ fun _ => True)
        ⟨sound, trivial⟩ trivial (agree_loadRoot harmless plain name sound) ?_
      intro found reached valid _ _ _
      refine .through (fun _ _ => True) (Drafting.agree_modifyDraft valid trivial trivial) ?_
      rintro _ ⟨later, roots⟩ valid _ _
      exact induction valid.1.1 roots

/-- A successful compilation comes to a sound context, in which nothing is reported. -/
theorem advances_compile (harmless : frontEnd.registry.IsHarmless)
    (plain : strict → frontEnd.ParsesPlainly) (names : List String)
    (sound : context.Sound strict) {compiled : Compiled}
    (succeeds : (frontEnd.compile context names).outcome = .ok compiled) :
    compiled.context.Sound strict ∧ compiled.context.log.errors = [] ∧
      Advances frontEnd strict none context compiled.context := by
  have loaded := agree_loadRoots harmless plain names sound []
  have reachedSound := loaded.valid.1.1
  have leads := loaded.leads
  unfold compile at succeeds
  rcases outcome : frontEnd.loadRoots names (context, []) with ⟨ended, reached, roots⟩
  rw [outcome] at succeeds reachedSound leads
  dsimp only at succeeds
  split at succeeds
  · rename_i silent
    cases succeeds
    have noErrors := (List.append_eq_nil_iff.mp silent).1
    have reports : Reports reached { reached with log := reached.log.cleared } := by
      refine { Reports.refl reached with errors := ?_ }
      rw [noErrors]
      exact List.nil_prefix
    exact ⟨reachedSound.ofReports reports, rfl, Advances.trans leads (.ofReports reports)⟩
  · cases succeeds

/-- The order in which loads are completed is a topological order of what contains what,
and a compilation that succeeds leaves no sub-component unresolved. -/
theorem loads_in_completion_order (frontEnd : FrontEnd) (options : Options)
    (definitions : List Definition) (names : List String)
    (predefined : frontEnd.registry = .predefined) (plain : frontEnd.ParsesPlainly)
    (undecorated : ∀ definition ∈ definitions, ∀ component ∈ definition.components,
      component.resolved = none) :
    let reached := frontEnd.afterLoads names (.ofDefinitions options definitions)
    reached.cache.keys.Nodup ∧ reached.InCompletionOrder ∧
      (∀ id, ¬Relation.TransGen reached.Contains id id) ∧
      ∀ roots compiled, (frontEnd.compile reached roots).outcome = .ok compiled →
        compiled.context.InCompletionOrder ∧ compiled.context.IsFullyResolved ∧
          ∀ id, ¬Relation.TransGen compiled.context.Contains id id := by
  intro reached
  have harmless : frontEnd.registry.IsHarmless :=
    predefined ▸ AnnotationRegistry.isHarmless_predefined
  have sound : reached.Sound True :=
    sound_afterLoads harmless plain names
      (sound_ofDefinitions options definitions fun _ => undecorated)
  refine ⟨sound.keys, sound.inCompletionOrder, sound.acyclic, fun roots compiled succeeds => ?_⟩
  obtain ⟨soundAfter, noErrors, -⟩ := advances_compile harmless (fun _ => plain) roots sound succeeds
  exact ⟨soundAfter.inCompletionOrder, soundAfter.isFullyResolved noErrors, soundAfter.acyclic⟩

theorem parsesPlainly_registeredOnly : registeredOnly.ParsesPlainly :=
  ⟨fun _ isParser => (nomatch isParser), fun _ isParser => (nomatch isParser)⟩

/-- A composite before the primitive that it holds. -/
def composed : List Definition :=
  [ { Definition.ofKind "a.C" .composite with
      components := [⟨"part", some (.ofName "a.P"), none, .generated, .none, none, false⟩] },
    .ofKind "a.P" .primitive ]

def composedLoaded : Context :=
  registeredOnly.afterLoads ["a.C"] (.ofDefinitions .default composed)

/-- The primitive is loaded first, and compiling both again succeeds. -/
theorem composed_in_completion_order :
    composedLoaded.cache.keys = ["a.P", "a.C"] ∧ composedLoaded.InCompletionOrder ∧
      ∃ compiled, (registeredOnly.compile composedLoaded ["a.C", "a.P"]).outcome = .ok compiled ∧
        compiled.context.IsFullyResolved := by
  have loaded : composedLoaded.cache.keys = ["a.P", "a.C"] := by decide +kernel
  have ordered := loads_in_completion_order registeredOnly .default composed ["a.C"] rfl
    parsesPlainly_registeredOnly (by decide)
  have succeeds :
      (registeredOnly.compile composedLoaded ["a.C", "a.P"]).outcome.isOk = true := by
    decide +kernel
  cases outcome : (registeredOnly.compile composedLoaded ["a.C", "a.P"]).outcome with
  | ok compiled =>
      exact ⟨loaded, ordered.2.1, compiled, rfl,
        (ordered.2.2.2 ["a.C", "a.P"] compiled outcome).2.1⟩
  | error diagnostics =>
      rw [outcome] at succeeds
      exact nomatch succeeds

end FrontEnd

end Adl
