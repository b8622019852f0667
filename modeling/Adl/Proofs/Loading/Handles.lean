import Adl.Proofs.Loading.CacheCoherence

namespace Adl

open Step Context

/-! Handles that fit. A decoration names a definition and may carry a handle; the handle fits
where its slot holds the definition of that name. Definitions may be registered with handles of
other compilations, so loading has to find out which of them fit before anything is read through
them. -/

namespace Definition

/-- The decorations of the types to which the type parameters conform. -/
def typeHandles (definition : Definition) : List Resolved :=
  definition.typeParameters.filterMap fun parameter => parameter.conformsTo.bind (·.resolved)

/-- The decorations through which the definition is read. -/
def handles (definition : Definition) : List Resolved :=
  definition.components.filterMap (·.resolved) ++ definition.typeHandles

/-- Loading resolves the decorations of a definition anew, whatever their handles are: the types
to which type parameters conform carry none, and only sub-components that name a definition do. -/
structure IsCheckable (definition : Definition) : Prop where
  types : ∀ resolved ∈ definition.typeHandles, resolved.id = none
  components : ∀ component ∈ definition.components, component.resolvedId?.isSome = true →
    component.definition.isSome = true

instance (definition : Definition) : Decidable definition.IsCheckable :=
  decidable_of_iff ((∀ resolved ∈ definition.typeHandles, resolved.id = none) ∧
      ∀ component ∈ definition.components, component.resolvedId?.isSome = true →
        component.definition.isSome = true)
    ⟨fun ⟨types, components⟩ => ⟨types, components⟩, fun ⟨types, components⟩ => ⟨types, components⟩⟩

end Definition

namespace Context

/-- The handle, if there is one, is that of a slot with the definition of the name. -/
def fits (context : Context) (resolved : Resolved) : Bool :=
  resolved.id.all fun id => context.arena[id]?.any (·.name == resolved.name)

/-- Everything that is read through decorations of a definition is what they name. -/
def trusts (context : Context) (definition : Definition) : Bool :=
  definition.handles.all context.fits

/-- An error was reported that stops the compilation. -/
def stopped (context : Context) : Bool :=
  context.log.policy == .failFast && !context.log.errors.isEmpty

theorem fits_iff {context : Context} {resolved : Resolved} :
    context.fits resolved = true ↔ ∀ id, resolved.id = some id →
      id < context.arena.size ∧ (context.definition id).name = resolved.name := by
  unfold fits
  cases resolved.id with
  | none => simp
  | some id =>
      by_cases within : id < context.arena.size
      · simp [Context.definition, within]
      · simp [within]

/-- What a lookup gives for a decoration bears the name, where the cache does. -/
theorem named_of_resolved? {context : Context} {resolved : Resolved} {id : DefinitionId}
    (cached : ∀ name id, context.cache.find? name = some id →
      id < context.arena.size ∧ (context.definition id).name = name)
    (found : context.resolved? resolved = some id) :
    id < context.arena.size ∧ (context.definition id).name = resolved.name := by
  rcases Option.or_eq_some_iff.mp found with atPosition | ⟨-, found⟩
  · obtain ⟨isHandle, holds⟩ := Option.filter_eq_some_iff.mp atPosition
    have fitting : context.fits resolved = true := by simpa [fits, isHandle] using holds
    exact fits_iff.mp fitting id isHandle
  · exact cached _ id found

/-! ## Safe states -/

/-- Decorations that loading does not resolve anew fit. -/
structure IsSane (context : Context) (definition : Definition) : Prop where
  types : ∀ resolved ∈ definition.typeHandles, context.fits resolved = true
  links : ∀ link ∈ definition.links, link.2 = false → ∀ resolved, link.1 = some resolved →
    context.fits resolved = true

/-- All links fit. -/
def FitsLinks (context : Context) (links : List (Option Resolved × Bool)) : Prop :=
  ∀ link ∈ links, ∀ resolved, link.1 = some resolved → context.fits resolved = true

/-- Whatever is loaded can be trusted, and whatever is not can be once its sub-components are
resolved. -/
structure Safe (context : Context) : Prop where
  loaded : ∀ name id, context.cache.find? name = some id → id < context.arena.size ∧
    (context.definition id).name = name ∧ context.FitsLinks (context.definition id).links
  registered : ∀ name id, context.registered.find? name = some id →
    id < context.arena.size ∧ (context.definition id).name = name
  sane : ∀ id, context.IsSane (context.definition id)
  remembered : ∀ key id, context.references.find? key = some id → context.Loaded id

theorem trusts_iff {context : Context} {definition : Definition} :
    context.trusts definition = true ↔
      (∀ resolved ∈ definition.typeHandles, context.fits resolved = true) ∧
        context.FitsLinks definition.links := by
  simp only [trusts, Definition.handles, List.all_append, Bool.and_eq_true, List.all_eq_true,
    List.mem_filterMap, FitsLinks, Definition.links, List.forall_mem_map, Component.link]
  constructor
  · rintro ⟨components, types⟩
    exact ⟨types, fun component member resolved found =>
      components resolved ⟨component, member, found⟩⟩
  · rintro ⟨types, components⟩
    refine ⟨?_, types⟩
    rintro resolved ⟨component, member, found⟩
    exact components component member resolved found

theorem IsSane.trusts {context : Context} {definition : Definition}
    (sane : context.IsSane definition) (links : context.FitsLinks definition.links) :
    context.trusts definition = true :=
  trusts_iff.mpr ⟨sane.types, links⟩

theorem isSane_of_trusts {context : Context} {definition : Definition}
    (trusts : context.trusts definition = true) : context.IsSane definition :=
  have ⟨types, links⟩ := trusts_iff.mp trusts
  ⟨types, fun link member _ => links link member⟩

/-- Edits touch neither the links nor the type parameters. -/
theorem IsSane.edits {context : Context} {original changed : Definition}
    (sane : context.IsSane original) (edits : original.Edits changed) : context.IsSane changed where
  types := by
    rw [Definition.typeHandles, edits.typeParameters]
    exact sane.types
  links := edits.keeps.links ▸ sane.links

theorem Safe.trusts {context : Context} {id : DefinitionId} (safe : context.Safe)
    (loaded : context.Loaded id) : context.trusts (context.definition id) = true := by
  obtain ⟨name, found⟩ := loaded
  exact (safe.sane id).trusts (safe.loaded name id found).2.2

/-- What is loaded is what a decoration with its name designates. -/
theorem Safe.fits {context : Context} {id : DefinitionId} (safe : context.Safe)
    (loaded : context.Loaded id) :
    context.fits ⟨(context.definition id).name, some id⟩ = true := by
  obtain ⟨name, found⟩ := loaded
  refine fits_iff.mpr fun other isHandle => ?_
  cases isHandle
  exact ⟨(safe.loaded name id found).1, rfl⟩

/-- Only decorations without a handle are left to trust in what is registered. -/
theorem isSane_of_isCheckable {definition : Definition} (checkable : definition.IsCheckable)
    (context : Context) : context.IsSane definition where
  types resolved member := fits_iff.mpr fun id isHandle =>
    nomatch (checkable.types resolved member).symm.trans isHandle
  links := by
    simp only [Definition.links, List.forall_mem_map, Component.link]
    intro component member unnamed resolved found
    refine fits_iff.mpr fun id isHandle => ?_
    have handle : component.resolvedId? = some id := by simp [Component.resolvedId?, found, isHandle]
    have named := checkable.components component member (handle ▸ rfl)
    cases named.symm.trans unnamed

/-! ## How states follow each other -/

/-- Slots keep the names of their definitions, and what is loaded stays loaded. A name that is
loading is loaded by no one else. -/
structure Respects (before after : Context) : Prop where
  loading : after.loading = before.loading
  size : before.arena.size ≤ after.arena.size
  names : ∀ id < before.arena.size, (after.definition id).name = (before.definition id).name
  cache : ∀ name id, before.cache.find? name = some id → after.cache.find? name = some id
  absent : ∀ name ∈ before.loading, before.cache.find? name = none →
    after.cache.find? name = none

namespace Respects

variable {before middle after : Context}

theorem of_same (loading : after.loading = before.loading) (arena : after.arena = before.arena)
    (cache : after.cache = before.cache) : Respects before after where
  loading := loading
  size := by rw [arena]
  names id _ := by rw [Context.definition, arena, Context.definition]
  cache name id found := by rw [cache, found]
  absent name _ absent := by rw [cache, absent]

theorem refl (context : Context) : Respects context context :=
  of_same rfl rfl rfl

theorem trans (first : Respects before middle) (second : Respects middle after) :
    Respects before after where
  loading := second.loading.trans first.loading
  size := Nat.le_trans first.size second.size
  names id within := (second.names id (Nat.lt_of_lt_of_le within first.size)).trans
    (first.names id within)
  cache name id found := second.cache name id (first.cache name id found)
  absent name loading absent :=
    second.absent name (first.loading ▸ loading) (first.absent name loading absent)

theorem of_reports (reports : Reports before after) : Respects before after :=
  of_same reports.loading reports.arena reports.cache

/-- Handles that fit go on to. -/
theorem fits (respects : Respects before after) {resolved : Resolved}
    (holds : before.fits resolved = true) : after.fits resolved = true := by
  rw [fits_iff] at holds ⊢
  intro id isHandle
  obtain ⟨within, named⟩ := holds id isHandle
  exact ⟨Nat.lt_of_lt_of_le within respects.size, (respects.names id within).trans named⟩

theorem fitsLinks (respects : Respects before after) {links : List (Option Resolved × Bool)}
    (holds : before.FitsLinks links) : after.FitsLinks links :=
  fun link member resolved found => respects.fits (holds link member resolved found)

theorem isSane (respects : Respects before after) {definition : Definition}
    (sane : before.IsSane definition) : after.IsSane definition :=
  ⟨fun resolved member => respects.fits (sane.types resolved member),
    fun link member unnamed resolved found =>
      respects.fits (sane.links link member unnamed resolved found)⟩

theorem trusts (respects : Respects before after) {definition : Definition}
    (holds : before.trusts definition = true) : after.trusts definition = true :=
  have ⟨types, links⟩ := trusts_iff.mp holds
  trusts_iff.mpr ⟨fun resolved member => respects.fits (types resolved member),
    respects.fitsLinks links⟩

theorem loaded (respects : Respects before after) {id : DefinitionId} (loaded : before.Loaded id) :
    after.Loaded id :=
  loaded.imp fun name found => respects.cache name id found

theorem push (context : Context) (added : Definition) :
    Respects context { context with arena := context.arena.push added } :=
  { refl context with
    size := by
      change context.arena.size ≤ (context.arena.push added).size
      rw [Array.size_push]
      exact Nat.le_succ _
    names := fun id within => by rw [definition_push context added within] }

end Respects

/-- The slot is filled for a name that is being loaded. -/
structure IsOpen (context : Context) (name : String) (id : DefinitionId) : Prop where
  within : id < context.arena.size
  named : (context.definition id).name = name
  loading : name ∈ context.loading
  absent : context.cache.find? name = none

section Safety

variable {before after context : Context} {name : String} {id : DefinitionId} {changed : Definition}

theorem IsOpen.lasts (respects : Respects before after) (isOpen : before.IsOpen name id) :
    after.IsOpen name id where
  within := Nat.lt_of_lt_of_le isOpen.within respects.size
  named := (respects.names id isOpen.within).trans isOpen.named
  loading := respects.loading ▸ isOpen.loading
  absent := respects.absent name isOpen.loading isOpen.absent

theorem Safe.making (safe : context.Safe) (isOpen : context.IsOpen name id) :
    Making name id context where
  within := isOpen.within
  names := .inl isOpen.named
  registered other found := (safe.registered other id found).2.symm.trans isOpen.named
  notLoaded other found := by
    cases (safe.loaded other id found).2.1.symm.trans isOpen.named
    exact nomatch isOpen.absent.symm.trans found
  loading := isOpen.loading

theorem Safe.of_same (safe : before.Safe) (arena : after.arena = before.arena)
    (cache : after.cache = before.cache) (registered : after.registered = before.registered)
    (references : after.references = before.references) : after.Safe := by
  have definitions : after.definition = before.definition := by
    funext id
    rw [Context.definition, arena, Context.definition]
  have fits : after.fits = before.fits := by
    funext resolved
    rw [Context.fits, arena, Context.fits]
  refine ⟨?_, ?_, fun id => ⟨?_, ?_⟩, ?_⟩
  · simp only [FitsLinks, cache, arena, definitions, fits]
    exact safe.loaded
  · simp only [registered, arena, definitions]
    exact safe.registered
  · rw [fits, definitions]
    exact (safe.sane id).types
  · rw [fits, definitions]
    exact (safe.sane id).links
  · simp only [Context.Loaded, references, cache]
    exact safe.remembered

theorem Safe.of_reports (safe : before.Safe) (reports : Reports before after) : after.Safe :=
  safe.of_same reports.arena reports.cache reports.registered reports.references

theorem Safe.replace (safe : context.Safe) (isOpen : context.IsOpen name id)
    (named : changed.name = name) (sane : context.IsSane changed) :
    (context.replace id changed).Safe ∧ Respects context (context.replace id changed) := by
  have size : (context.replace id changed).arena.size = context.arena.size :=
    Array.size_setIfInBounds ..
  have stored := definition_replace context changed isOpen.within
  have others {other : DefinitionId} (different : id ≠ other) :=
    definition_replace_of_ne context changed different
  have names (other : DefinitionId) :
      ((context.replace id changed).definition other).name = (context.definition other).name := by
    by_cases same : id = other
    · cases same
      rw [stored, named, isOpen.named]
    · rw [others same]
  have respects : Respects context (context.replace id changed) :=
    { Respects.refl context with
      size := size.ge
      names := fun other _ => names other }
  refine ⟨⟨fun known other found => ?_, fun known other found => ?_, fun other => ?_,
    safe.remembered⟩, respects⟩
  · obtain ⟨within, bears, links⟩ := safe.loaded known other found
    have different := (safe.making isOpen).ne_of_loaded ⟨known, found⟩
    rw [size, others different]
    exact ⟨within, bears, respects.fitsLinks links⟩
  · rw [size, names]
    exact safe.registered known other found
  · by_cases same : id = other
    · cases same
      exact stored.symm ▸ respects.isSane sane
    · rw [others same]
      exact respects.isSane (safe.sane other)

theorem Safe.push (safe : context.Safe) (sane : context.IsSane changed) :
    { context with arena := context.arena.push changed }.Safe := by
  have respects := Respects.push context changed
  have kept {other : DefinitionId} (within : other < context.arena.size) :=
    definition_push context changed within
  refine ⟨fun known other found => ?_, fun known other found => ?_, fun other => ?_,
    safe.remembered⟩
  · obtain ⟨within, bears, links⟩ := safe.loaded known other found
    rw [kept within]
    exact ⟨Nat.lt_of_lt_of_le within respects.size, bears, respects.fitsLinks links⟩
  · obtain ⟨within, bears⟩ := safe.registered known other found
    rw [kept within]
    exact ⟨Nat.lt_of_lt_of_le within respects.size, bears⟩
  · refine respects.isSane ?_
    rcases Nat.lt_trichotomy other context.arena.size with within | rfl | beyond
    · rw [kept within]
      exact safe.sane other
    · rw [definition_push_size]
      exact sane
    · have absent : { context with arena := context.arena.push changed }.definition other =
          default := by
        have unused : (context.arena.push changed)[other]? = none :=
          Array.getElem?_eq_none ((Array.size_push changed).le.trans (Nat.succ_le_of_lt beyond))
        rw [Context.definition, unused]
        rfl
      rw [absent]
      exact ⟨List.forall_mem_nil _, List.forall_mem_nil _⟩

theorem Safe.register (safe : context.Safe) (named : changed.name = name)
    (sane : context.IsSane changed) : (context.register name changed).2.Safe := by
  have pushed := safe.push sane
  refine ⟨pushed.loaded, fun known other found => ?_,
    fun other => ⟨(pushed.sane other).types, (pushed.sane other).links⟩, pushed.remembered⟩
  change (context.registered.insert name context.arena.size).find? known = some other at found
  rw [Table.find?_insert] at found
  split at found
  · rename_i same
    cases found
    cases same
    refine ⟨?_, ?_⟩
    · change context.arena.size < (context.arena.push changed).size
      rw [Array.size_push]
      exact Nat.lt_succ_self _
    · exact (congrArg Definition.name (definition_push_size context changed)).trans named
  · exact pushed.registered known other found

theorem Safe.remember (safe : context.Safe) (key : String) (loaded : context.Loaded id) :
    { context with references := context.references.insert key id }.Safe := by
  refine ⟨safe.loaded, safe.registered,
    fun other => ⟨(safe.sane other).types, (safe.sane other).links⟩, fun known other found => ?_⟩
  change (context.references.insert key id).find? known = some other at found
  rw [Table.find?_insert] at found
  split at found
  · cases found
    exact loaded
  · exact safe.remembered known other found

/-- A definition is loaded once it can be trusted. -/
theorem Safe.finish (safe : context.Safe) (isOpen : context.IsOpen name id)
    (links : context.FitsLinks (context.definition id).links) :
    { context with cache := context.cache.insert name id }.Safe := by
  refine ⟨fun known other found => ?_, safe.registered,
    fun other => ⟨(safe.sane other).types, (safe.sane other).links⟩, fun known other found => ?_⟩
  · change (context.cache.insert name id).find? known = some other at found
    rw [Table.find?_insert] at found
    split at found
    · rename_i same
      cases found
      cases same
      exact ⟨isOpen.within, isOpen.named, links⟩
    · exact safe.loaded known other found
  · obtain ⟨loadedName, isLoaded⟩ := safe.remembered known other found
    refine ⟨loadedName, (Table.find?_insert ..).trans ?_⟩
    have different : name ≠ loadedName := by
      rintro rfl
      exact nomatch isOpen.absent.symm.trans isLoaded
    rw [if_neg different, isLoaded]

end Safety

/-! ## Steps between safe states -/

/-- Steps of a compilation that is safe as long as it is not stopped. -/
def trusting : Discipline Context where
  Valid context := context.stopped = false → context.Safe
  Leads before after := after.stopped = false → before.stopped = false ∧ Respects before after
  Fails _ := True
  refl context := fun runs => ⟨runs, .refl context⟩
  trans first second := fun runs =>
    ⟨(first (second runs).1).1, (first (second runs).1).2.trans (second runs).2⟩

variable {α Draft : Type} {before after context : Context} {name : String} {id : DefinitionId}

/-- What holds of a running compilation, and is kept, lasts. -/
theorem lasting_trusting {Holds : Context → Draft → Prop}
    (kept : ∀ {before after item}, Respects before after → Holds before item → Holds after item) :
    trusting.Lasting fun context item => context.stopped = false → Holds context item :=
  fun _ _ _ _ _ leads holds runs => have ⟨running, respects⟩ := leads runs
    kept respects (holds running)

theorem stopped_of_reports (reports : Reports before after) (stops : before.stopped = true) :
    after.stopped = true := by
  simp only [stopped, Bool.and_eq_true, beq_iff_eq, Bool.not_eq_true', List.isEmpty_eq_false_iff]
    at stops ⊢
  exact ⟨reports.policy.trans stops.1, fun silent =>
    stops.2 (List.prefix_nil.mp (silent ▸ reports.errors))⟩

theorem runs_of_reports (reports : Reports before after) (runs : after.stopped = false) :
    before.stopped = false := by
  by_contra stops
  exact nomatch (stopped_of_reports reports (by simpa using stops)).symm.trans runs

theorem leads_of_reports (reports : Reports before after) : trusting.Leads before after :=
  fun runs => ⟨runs_of_reports reports runs, .of_reports reports⟩

theorem valid_of_reports (valid : trusting.Valid before) (reports : Reports before after) :
    trusting.Valid after :=
  fun runs => (valid (runs_of_reports reports runs)).of_reports reports

end Context

open Context

variable {α Draft : Type} {context : Context} {name : String} {id : DefinitionId}

/-- Reports keep what is safe. -/
theorem Step.Agree.trusted {left right : Loading α} {post : α → Context → Prop}
    (valid : trusting.Valid context) (agree : Agree reporting context left right post) :
    Agree trusting context left right fun value reached => post value reached ∧
      Reports context reached :=
  (agree.mono fun _ _ _ reports holds => And.intro holds reports).under
    (fun _ _ reports => valid_of_reports valid reports)
    (fun _ _ reports => leads_of_reports reports) fun _ _ => trivial

theorem Drafting.agree_trusted {Good : Context → Draft → Prop} {draft : Draft}
    {left right : Revising Draft α} {post : α → Context × Draft → Prop}
    (valid : trusting.Valid context)
    (agree : Agree (reporting.drafting Good) (context, draft) left right post) :
    Agree (trusting.drafting Good) (context, draft) left right post :=
  agree_under agree (fun _ _ reports => valid_of_reports valid reports)
    (fun _ _ reports => leads_of_reports reports) (fun _ _ => trivial) fun _ _ _ _ good => good

namespace Loading

theorem agree_orRecorded_trusted {left right : Loading α} {post : α → Context → Prop} (span : Span)
    (agree : Agree trusting context left right post) :
    Agree trusting context (Loading.orRecorded left span) (Loading.orRecorded right span)
      fun found reached => ∀ value, found = some value → post value reached := by
  refine .bind agree.outcome ?_
  intro result reached valid _ ended
  cases result with
  | ok value => exact .pure valid fun _ equal => Option.some.inj equal ▸ ended
  | error error =>
      cases error with
      | fatal diagnostic =>
          exact .bind (agree_record _ |>.trusted valid) fun _ later valid _ _ =>
            .pure valid nofun
      | aborted => exact .fail valid trivial
      | internal error => exact .fail valid trivial

theorem agree_register_trusted {added : Definition} (valid : trusting.Valid context)
    (named : added.name = name) (sane : context.stopped = false → context.IsSane added) :
    Agree trusting context (Loading.register name added) (Loading.register name added)
      fun _ _ => True :=
  .run rfl (fun runs => (valid runs).register named (sane runs))
    (fun runs => ⟨runs, (Respects.push context added).trans (.of_same rfl rfl rfl)⟩) trivial

end Loading

end Adl
