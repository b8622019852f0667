import Adl.Proofs.Definition.Interfaces

namespace Adl

open Step Context

/-! What the last stages leave. Every definition in the cache was taken through them on the
way, and stays as they left it. -/

namespace Context

variable {frontEnd : FrontEnd} {strict : Prop} {origin after : Context}

/-- A definition was loaded no later than another. -/
def LoadedBy (context : Context) (part id : DefinitionId) : Prop :=
  ∃ (first last : Nat) (name other : String), first ≤ last ∧
    context.cache.entries[first]? = some (name, part) ∧
    context.cache.entries[last]? = some (other, id)

theorem LoadedBy.loaded {context : Context} {part id : DefinitionId}
    (loadedBy : context.LoadedBy part id) (sound : context.Sound strict) : context.Loaded part := by
  obtain ⟨_, _, name, _, _, isPart, -⟩ := loadedBy
  exact ⟨name, Table.findEntry_of_mem sound.keys (List.mem_of_getElem? isPart)⟩

/-- A definition is at one place of the cache. -/
theorem Sound.place_unique {context : Context} (sound : context.Sound strict)
    {id : DefinitionId} {first last : Nat} {name other : String}
    (isFirst : context.cache.entries[first]? = some (name, id))
    (isLast : context.cache.entries[last]? = some (other, id)) : first = last := by
  have found := Table.findEntry_of_mem sound.keys (List.mem_of_getElem? isFirst)
  have foundLast := Table.findEntry_of_mem sound.keys (List.mem_of_getElem? isLast)
  cases sound.loaded_unique name other id found foundLast
  have keys : (context.cache.entries.map (·.1))[first]? =
      (context.cache.entries.map (·.1))[last]? := by
    rw [List.getElem?_map, List.getElem?_map, isFirst, isLast]
  refine (List.getElem?_inj ?_ sound.keys).mp keys
  change first < (context.cache.entries.map (·.1)).length
  rw [List.length_map]
  exact (List.getElem?_eq_some_iff.mp isFirst).1

/-- The last stages took a definition from one context to another on the way. It was
remembered then, and stays as it was. -/
structure ClosedOn (frontEnd : FrontEnd) (strict : Prop) (origin : Context) (name : String)
    (id : DefinitionId) (middle before after : Context) : Prop where
  path : Path frontEnd strict origin middle
  making : Making name id middle
  grew : ∃ earlier, Path frontEnd strict origin earlier ∧ middle.GrewFrom strict earlier id
  ran : ∃ load, Stage.afterParents.forM (Stage.run frontEnd load name id) middle = (.ok (), before)
  absent : before.cache.find? name = none
  kept : KeepsLoaded { before with cache := before.cache.insert name id } after
  errors : before.log.errors <+: after.log.errors
  offers : after.log.errors = [] → ∀ other, (after.definition other).Offers (before.definition other)

namespace ClosedOn

variable {name : String} {id : DefinitionId} {middle before : Context}

theorem loaded (closed : ClosedOn frontEnd strict origin name id middle before after) :
    after.Loaded id :=
  closed.kept.loaded ⟨name, by simp⟩

theorem definition (closed : ClosedOn frontEnd strict origin name id middle before after) :
    after.definition id = before.definition id :=
  closed.kept.definition id ⟨name, by simp⟩

theorem silent (closed : ClosedOn frontEnd strict origin name id middle before after)
    (silent : after.log.errors = []) : before.log.errors = [] :=
  List.prefix_nil.mp (silent ▸ closed.errors)

/-- The last stages edit what they close. -/
theorem edited (harmless : frontEnd.registry.IsHarmless)
    (closed : ClosedOn frontEnd strict origin name id middle before after) :
    EditedAt name id middle before := by
  obtain ⟨load, ran⟩ := closed.ran
  exact (Stage.edited_of_runOthers harmless (by decide) closed.making ran).2

/-- What was closed stays so. -/
theorem later {reached : Context} (closed : ClosedOn frontEnd strict origin name id middle before after)
    (kept : KeepsLoaded after reached) (errors : after.log.errors <+: reached.log.errors)
    (offers : reached.log.errors = [] →
      ∀ other, (reached.definition other).Offers (after.definition other)) :
    ClosedOn frontEnd strict origin name id middle before reached :=
  { closed with
    kept := closed.kept.trans kept
    errors := closed.errors.trans errors
    offers := fun silent other =>
      (offers silent other).trans (closed.offers (List.prefix_nil.mp (silent ▸ errors)) other) }

/-- What was loaded by then was loaded when it was closed. -/
theorem loaded_before {part : DefinitionId} (sound : after.Sound strict)
    (closed : ClosedOn frontEnd strict origin name id middle before after)
    (loadedBy : after.LoadedBy part id) : part = id ∨ before.Loaded part := by
  obtain ⟨first, last, partName, other, order, isPart, isLast⟩ := loadedBy
  have entries : before.cache.entries ++ [(name, id)] <+: after.cache.entries := by
    have kept := closed.kept.cache
    rwa [Table.entries_insert_of_find?_none closed.absent] at kept
  have own : after.cache.entries[before.cache.entries.length]? = some (name, id) := by
    obtain ⟨rest, equal⟩ := entries
    rw [← equal, List.append_assoc, List.getElem?_append_right (Nat.le_refl _), Nat.sub_self]
    rfl
  rcases Nat.lt_or_eq_of_le (sound.place_unique isLast own ▸ order) with within | rfl
  · obtain ⟨rest, equal⟩ := entries
    rw [← equal, List.append_assoc, List.getElem?_append_left within] at isPart
    refine .inr ⟨partName, Table.findEntry_of_mem ?_ (List.mem_of_getElem? isPart)⟩
    have keys := sound.keys
    change (after.cache.entries.map (·.1)).Nodup at keys
    rw [← equal, List.append_assoc, List.map_append] at keys
    exact (List.nodup_append.mp keys).1
  · rw [own] at isPart
    cases isPart
    exact .inl rfl

/-- It has not changed since. -/
theorem definition_of_loadedBy {part : DefinitionId} (sound : after.Sound strict)
    (closed : ClosedOn frontEnd strict origin name id middle before after)
    (loadedBy : after.LoadedBy part id) : after.definition part = before.definition part := by
  rcases closed.loaded_before sound loadedBy with rfl | loaded
  · exact closed.definition
  · refine closed.kept.definition part ?_
    obtain ⟨partName, found⟩ := loaded
    refine ⟨partName, ?_⟩
    change (before.cache.insert name id).find? partName = some part
    rw [Table.find?_insert, if_neg, found]
    rintro rfl
    exact nomatch closed.absent.symm.trans found

end ClosedOn

/-- What is loaded on the way went through the last stages. -/
theorem Path.closedOn (path : Path frontEnd strict origin after) (slots : origin.HasSlots)
    {id : DefinitionId} (loaded : after.Loaded id) :
    origin.Loaded id ∨ ∃ name middle before, ClosedOn frontEnd strict origin name id middle before after := by
  have keep : ∀ {reached later : Context}, Path frontEnd strict origin reached →
      (reached.Loaded id → origin.Loaded id ∨
        ∃ name middle before, ClosedOn frontEnd strict origin name id middle before reached) →
      reached.Loaded id → Path frontEnd strict reached later →
      origin.Loaded id ∨ ∃ name middle before, ClosedOn frontEnd strict origin name id middle before later := by
    intro reached later path known loaded step
    refine (known loaded).imp_right ?_
    rintro ⟨name, middle, before, closed⟩
    exact ⟨name, middle, before, closed.later (step.keepsLoaded (path.keepsLoaded slots).2).1
      step.errors step.offers⟩
  induction path with
  | start => exact .inl loaded
  | @reported reached _ path reports induction =>
      refine keep path induction ?_ (.reported .start reports)
      obtain ⟨name, found⟩ := loaded
      exact ⟨name, reports.cache ▸ found⟩
  | loading loading path induction => exact keep path induction loaded (.loading loading .start)
  | remembered key path target induction =>
      exact keep path induction loaded (.remembered key .start target)
  | parsed path parses induction => exact keep path induction loaded (.parsed .start parses)
  | copied name path asked named induction =>
      exact keep path induction loaded (.copied name .start asked named)
  | instantiated name request path edits named induction =>
      exact keep path induction loaded (.instantiated name request .start edits named)
  | written path making grows induction =>
      exact keep path induction loaded (.written .start making grows)
  | @finished earlier middle before name made load pathEarlier pathMiddle path makingMiddle grew making
      absent ran _ _ induction =>
      by_cases same : made = id
      · cases same
        exact .inr ⟨name, middle, before, pathMiddle, makingMiddle, ⟨earlier, pathEarlier, grew⟩,
          ⟨load, ran⟩, absent, .refl _, List.prefix_refl _, fun _ _ => .refl _⟩
      · have loadedBefore : before.Loaded id := by
          obtain ⟨known, found⟩ := loaded
          change (before.cache.insert name made).find? known = some id at found
          rw [Table.find?_insert] at found
          split at found
          · exact absurd (Option.some.inj found) same
          · exact ⟨known, found⟩
        refine (induction loadedBefore).imp_right ?_
        rintro ⟨otherName, otherMiddle, otherBefore, closed⟩
        exact ⟨otherName, otherMiddle, otherBefore, closed.later
          ((path.keepsLoaded slots).2.finish making absent).1 (List.prefix_refl _)
          fun _ _ => .refl _⟩

/-- What the last stages give to all definitions that they close, everything has that is loaded
on the way. -/
theorem Path.forall_loaded {Holds : Definition → Prop} (path : Path frontEnd strict origin after)
    (slots : origin.HasSlots) (start : ∀ id, origin.Loaded id → Holds (origin.definition id))
    (closes : ∀ {earlier middle before : Context} {name : String} {id : DefinitionId}
      {load : String → Loading DefinitionId}, Path frontEnd strict origin earlier →
      Making name id middle → middle.GrewFrom strict earlier id →
      Stage.afterParents.forM (Stage.run frontEnd load name id) middle = (.ok (), before) →
      before.log.errors = [] →
      (middle.log.errors = [] → ∀ other, middle.Loaded other → Holds (middle.definition other)) →
      Holds (before.definition id))
    (silent : after.log.errors = []) : ∀ id, after.Loaded id → Holds (after.definition id) := by
  have keep : ∀ {reached later : Context}, Path frontEnd strict origin reached →
      Path frontEnd strict reached later → (∀ id, later.Loaded id → reached.Loaded id) →
      (reached.log.errors = [] → ∀ id, reached.Loaded id → Holds (reached.definition id)) →
      later.log.errors = [] → ∀ id, later.Loaded id → Holds (later.definition id) := by
    intro reached later path step back holds silent id loaded
    have kept := (step.keepsLoaded (path.keepsLoaded slots).2).1
    rw [kept.definition id (back id loaded)]
    exact holds (step.errors_eq_nil silent) id (back id loaded)
  induction path with
  | start => exact start
  | reported path reports induction =>
      refine keep path (.reported .start reports) ?_ induction silent
      rintro id ⟨name, found⟩
      exact ⟨name, reports.cache ▸ found⟩
  | loading loading path induction =>
      exact keep path (.loading loading .start) (fun _ loaded => loaded) induction silent
  | remembered key path target induction =>
      exact keep path (.remembered key .start target) (fun _ loaded => loaded) induction silent
  | parsed path parses induction =>
      exact keep path (.parsed .start parses) (fun _ loaded => loaded) induction silent
  | copied name path asked named induction =>
      exact keep path (.copied name .start asked named) (fun _ loaded => loaded) induction silent
  | instantiated name request path edits named induction =>
      exact keep path (.instantiated name request .start edits named) (fun _ loaded => loaded) induction
        silent
  | written path making grows induction =>
      exact keep path (.written .start making grows) (fun _ loaded => loaded) induction silent
  | @finished _ middle before name made load pathEarlier _ _ making grew _ _ ran _ inductionMiddle
      induction =>
      intro id loaded
      by_cases same : made = id
      · cases same
        change Holds (before.definition made)
        exact closes pathEarlier making grew ran silent inductionMiddle
      · obtain ⟨known, found⟩ := loaded
        change (before.cache.insert name made).find? known = some id at found
        rw [Table.find?_insert] at found
        split at found
        · exact absurd (Option.some.inj found) same
        · exact induction silent id ⟨known, found⟩

/-- What is loaded on the way names its sub-components apart. -/
theorem Path.namesApart (harmless : frontEnd.registry.IsHarmless)
    (path : Path frontEnd strict origin after) (slots : origin.HasSlots)
    (start : ∀ id, origin.Loaded id → (origin.definition id).NamesApart)
    (silent : after.log.errors = []) :
    ∀ id, after.Loaded id → (after.definition id).NamesApart := by
  refine path.forall_loaded slots start ?_ silent
  intro earlier middle before name id load _ making grew ran silent loaded
  have edited := (Stage.edited_of_runOthers harmless (by decide) making ran).2
  obtain ⟨declared, apart, -, grows⟩ := grew.apart (edited.silent silent)
  exact (apart.grows (loaded (edited.silent silent)) grows).keeps edited.edits.keeps

end Context

namespace Stage

variable {frontEnd : FrontEnd} {load : String → Loading DefinitionId} {name : String}
  {id : DefinitionId} {middle before : Context}

/-- Stages that ran were run one after the other. -/
theorem ran_cons {stage : Stage} {rest : List Stage}
    (ran : (stage :: rest).forM (run frontEnd load name id) middle = (.ok (), before)) :
    ∃ reached, run frontEnd load name id stage middle = (.ok (), reached) ∧
      rest.forM (run frontEnd load name id) reached = (.ok (), before) := by
  rw [List.forM_eq_forM, List.forM_cons] at ran
  obtain ⟨⟨⟩, reached, first, others⟩ := ok_of_bind ran
  exact ⟨reached, first, others⟩

theorem ran_append (first : List Stage) {rest : List Stage}
    (ran : (first ++ rest).forM (run frontEnd load name id) middle = (.ok (), before)) :
    ∃ reached, first.forM (run frontEnd load name id) middle = (.ok (), reached) ∧
      rest.forM (run frontEnd load name id) reached = (.ok (), before) := by
  rw [List.forM_eq_forM, List.forM_append] at ran
  obtain ⟨⟨⟩, reached, first, others⟩ := ok_of_bind ran
  exact ⟨reached, first, others⟩

theorem ran_singleton {stage : Stage}
    (ran : [stage].forM (run frontEnd load name id) middle = (.ok (), before)) :
    run frontEnd load name id stage middle = (.ok (), before) := by
  obtain ⟨reached, first, others⟩ := ran_cons ran
  cases others
  exact first

end Stage

/-! ## Compilations -/

namespace FrontEnd

variable {frontEnd : FrontEnd} {options : Options} {definitions : List Definition}
  {roots : List String} {compiled : Compiled}

/-- What is decided of an outcome holds of what it gives. -/
theorem exists_ok_of_any {failure given : Type} {outcome : Except failure given}
    {Holds : given → Prop} [DecidablePred Holds]
    (succeeds : outcome.toOption.any (fun value => Holds value) = true) :
    ∃ value, outcome = .ok value ∧ Holds value := by
  cases outcome with
  | error failure => exact nomatch succeeds
  | ok value => exact ⟨value, rfl, of_decide_eq_true succeeds⟩

/-- A compilation that succeeds comes from the registered definitions without errors, and what it
loads went through the last stages. -/
theorem closedOn_of_compile {strict : Prop} (harmless : frontEnd.registry.IsHarmless)
    (plain : strict → frontEnd.ParsesPlainly)
    (undecorated : strict → ∀ definition ∈ definitions, ∀ component ∈ definition.components,
      component.resolved = none)
    (succeeds : (frontEnd.compile (.ofDefinitions options definitions) roots).outcome =
      .ok compiled) :
    compiled.context.log.errors = [] ∧
      Path frontEnd strict (.ofDefinitions options definitions) compiled.context ∧
      ∀ id, compiled.context.Loaded id → ∃ name middle before,
        ClosedOn frontEnd strict (.ofDefinitions options definitions) name id middle before
          compiled.context := by
  obtain ⟨-, silent, advances⟩ := advances_compile harmless plain roots
    (sound_ofDefinitions options definitions undecorated) succeeds
  refine ⟨silent, advances.path, fun id loaded => ?_⟩
  exact (advances.path.closedOn (hasSlots_ofDefinitions options definitions) loaded).resolve_left
    (not_loaded_ofDefinitions options definitions id)

/-- What registered and parsed definitions have and loading maintains, all definitions have on
the way. -/
theorem Maintains.ofDefinitions {strict : Prop} {Holds : Context → Definition → Prop}
    (maintains : frontEnd.Maintains strict Holds)
    (registered : ∀ definition ∈ definitions, Holds (.ofDefinitions options definitions) definition)
    {reached : Context} (path : Path frontEnd strict (.ofDefinitions options definitions) reached)
    (silent : reached.log.errors = []) (id : DefinitionId) :
    Holds reached (reached.definition id) := by
  refine maintains.path path (hasSlots_ofDefinitions options definitions) (fun id => ?_) silent id
  rcases definition_ofDefinitions options definitions id with member | default
  · exact registered _ member
  · rw [default]
    exact maintains.default _

end FrontEnd

end Adl
