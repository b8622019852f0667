import Adl.Proofs.Loading.CompletionOrder

namespace Adl

open Step

/-! What loading keeps of all definitions. A property that no change, copy or instance takes
away holds wherever a compilation comes to without errors. -/

namespace Context

variable {frontEnd : FrontEnd} {strict : Prop} {before after : Context}

/-- What is loaded stays as it is, and where it is in the cache. Parameters keep their types. -/
structure KeepsLoaded (before after : Context) : Prop where
  cache : before.cache.entries <+: after.cache.entries
  definition : ∀ id, before.Loaded id → after.definition id = before.definition id
  types : before.KeepsTypes after

/-- The names in the cache have slots. -/
def HasSlots (context : Context) : Prop :=
  ∀ id, context.Loaded id → id < context.arena.size

namespace KeepsLoaded

theorem refl (context : Context) : KeepsLoaded context context :=
  ⟨List.prefix_refl _, fun _ _ => rfl, fun _ _ _ => id⟩

theorem loaded (kept : KeepsLoaded before after) {id : DefinitionId} (loaded : before.Loaded id) :
    after.Loaded id := by
  obtain ⟨name, found⟩ := loaded
  exact ⟨name, Table.find?_of_prefix kept.cache found⟩

theorem trans {middle : Context} (first : KeepsLoaded before middle)
    (second : KeepsLoaded middle after) : KeepsLoaded before after :=
  ⟨first.cache.trans second.cache, fun id loaded =>
    (second.definition id (first.loaded loaded)).trans (first.definition id loaded),
    fun name parameter type found =>
      second.types name parameter type (first.types name parameter type found)⟩

/-- Where the definitions and the cache are the same, so is what is loaded. -/
theorem of_same (arena : after.arena = before.arena) (cache : after.cache = before.cache)
    (types : before.KeepsTypes after) : KeepsLoaded before after :=
  ⟨cache ▸ List.prefix_refl _, fun id _ => by simp only [Context.definition, arena], types⟩

theorem of_reports (reports : Reports before after) : KeepsLoaded before after :=
  of_same reports.arena reports.cache reports.types

end KeepsLoaded

theorem Sound.hasSlots (sound : before.Sound strict) : before.HasSlots :=
  fun _ loaded => sound.within loaded

theorem HasSlots.of_same (slots : before.HasSlots) (arena : after.arena = before.arena)
    (cache : after.cache = before.cache) : after.HasSlots := by
  rintro id ⟨name, found⟩
  exact arena ▸ slots id ⟨name, cache ▸ found⟩

theorem HasSlots.push (slots : before.HasSlots) (added : Definition) :
    KeepsLoaded before { before with arena := before.arena.push added } ∧
      { before with arena := before.arena.push added }.HasSlots := by
  refine ⟨⟨List.prefix_refl _, fun id loaded => definition_push before added (slots id loaded),
    fun _ _ _ => id⟩, ?_⟩
  intro id loaded
  change id < (before.arena.push added).size
  rw [Array.size_push]
  exact Nat.lt_succ_of_lt (slots id loaded)

theorem HasSlots.register (slots : before.HasSlots) (name : String) (added : Definition) :
    KeepsLoaded before (before.register name added).2 ∧
      (before.register name added).2.HasSlots := by
  obtain ⟨kept, after⟩ := slots.push added
  exact ⟨⟨kept.cache, kept.definition, kept.types⟩, after⟩

theorem HasSlots.replace (slots : before.HasSlots) {name : String} {id : DefinitionId}
    (making : Making name id before) (changed : Definition) :
    KeepsLoaded before (before.replace id changed) ∧ (before.replace id changed).HasSlots := by
  refine ⟨⟨List.prefix_refl _, fun other loaded => ?_, fun _ _ _ found => found⟩, fun other loaded => ?_⟩
  · exact definition_replace_of_ne before changed (making.ne_of_loaded loaded)
  · change other < (before.arena.setIfInBounds id changed).size
    rw [Array.size_setIfInBounds]
    exact slots other loaded

theorem HasSlots.finish (slots : before.HasSlots) {name : String} {id : DefinitionId}
    (making : Making name id before) (absent : before.cache.find? name = none) :
    KeepsLoaded before { before with cache := before.cache.insert name id } ∧
      { before with cache := before.cache.insert name id }.HasSlots := by
  constructor
  · refine ⟨?_, fun _ _ => rfl, fun _ _ _ found => found⟩
    change before.cache.entries <+: (before.cache.insert name id).entries
    rw [Table.entries_insert_of_find?_none absent]
    exact List.prefix_append _ _
  · rintro other ⟨known, found⟩
    change (before.cache.insert name id).find? known = some other at found
    rw [Table.find?_insert] at found
    split at found
    · cases found
      exact making.within
    · exact slots other ⟨known, found⟩

namespace Path

/-- Wherever loading comes to, what was loaded is still there. -/
theorem keepsLoaded (path : Path frontEnd strict before after) (slots : before.HasSlots) :
    KeepsLoaded before after ∧ after.HasSlots := by
  induction path with
  | start => exact ⟨.refl _, slots⟩
  | reported _ reports induction =>
      exact ⟨induction.1.trans (.of_reports reports),
        induction.2.of_same reports.arena reports.cache⟩
  | loading _ _ induction =>
      exact ⟨induction.1.trans (.of_same rfl rfl fun _ _ _ => id), induction.2.of_same rfl rfl⟩
  | remembered _ _ _ induction =>
      exact ⟨induction.1.trans (.of_same rfl rfl fun _ _ _ => id), induction.2.of_same rfl rfl⟩
  | parsed _ _ induction => exact (induction.2.push _).imp_left induction.1.trans
  | copied name _ _ _ induction => exact (induction.2.register name _).imp_left induction.1.trans
  | instantiated name _ _ _ _ induction =>
      exact (induction.2.register name _).imp_left induction.1.trans
  | written _ making _ induction => exact (induction.2.replace making _).imp_left induction.1.trans
  | finished _ _ _ _ _ making absent _ _ _ induction =>
      exact (induction.2.finish making absent).imp_left induction.1.trans

theorem errors (path : Path frontEnd strict before after) : before.log.errors <+: after.log.errors := by
  induction path with
  | start => exact List.prefix_refl _
  | reported _ reports induction => exact induction.trans reports.errors
  | loading _ _ induction => exact induction
  | remembered _ _ _ induction => exact induction
  | parsed _ _ induction => exact induction
  | copied _ _ _ _ induction => exact induction
  | instantiated _ _ _ _ _ induction => exact induction
  | written _ _ _ induction => exact induction
  | finished _ _ _ _ _ _ _ _ _ _ induction => exact induction

theorem errors_eq_nil (path : Path frontEnd strict before after) (silent : after.log.errors = []) :
    before.log.errors = [] :=
  List.prefix_nil.mp (silent ▸ path.errors)

end Path

theorem default_of_size_le {id : DefinitionId} (beyond : before.arena.size ≤ id) :
    before.definition id = default := by
  simp [definition, Array.getElem?_eq_none beyond]

/-- What holds of all definitions in the slots, and of a new one. -/
theorem forall_push (Holds : Definition → Prop) (holds : ∀ id, Holds (before.definition id))
    {added : Definition} (new : Holds added) (id : DefinitionId) :
    Holds ({ before with arena := before.arena.push added }.definition id) := by
  rcases Nat.lt_trichotomy id before.arena.size with within | rfl | beyond
  · rw [definition_push before added within]
    exact holds id
  · rw [definition_push_size]
    exact new
  · have absent : { before with arena := before.arena.push added }.definition id = default :=
      default_of_size_le (Nat.le_trans (Nat.le_of_eq (Array.size_push ..)) beyond)
    rw [absent, ← default_of_size_le (Nat.le_of_lt beyond)]
    exact holds id

theorem forall_replace {Holds : Definition → Prop} (holds : ∀ id, Holds (before.definition id))
    {slot : DefinitionId} {changed : Definition} (new : Holds changed) (id : DefinitionId) :
    Holds ((before.replace slot changed).definition id) := by
  by_cases same : slot = id
  · cases same
    by_cases within : slot < before.arena.size
    · rw [definition_replace before changed within]
      exact new
    · have unchanged : (before.replace slot changed).definition slot = before.definition slot := by
        simp [definition, replace, within]
      exact unchanged ▸ holds slot
  · rw [definition_replace_of_ne before changed same]
    exact holds id

/-- A context in which nothing but definitions was registered has these, and nothing is
loaded. -/
theorem definition_ofDefinitions (options : Options) (definitions : List Definition)
    (id : DefinitionId) :
    (ofDefinitions options definitions).definition id ∈ definitions ∨
      (ofDefinitions options definitions).definition id = default := by
  have registered : ∀ (added : List Definition) (context : Context),
      added ⊆ definitions →
      (∀ id, context.definition id ∈ definitions ∨ context.definition id = default) →
      ∀ id, (added.foldl (fun context definition =>
          (context.register definition.name definition).2) context).definition id ∈ definitions ∨
        (added.foldl (fun context definition =>
          (context.register definition.name definition).2) context).definition id = default := by
    intro added
    induction added with
    | nil => exact fun _ _ known => known
    | cons definition rest induction =>
        intro context among known
        refine induction _ (List.subset_of_cons_subset among) (forall_push
          (fun definition => definition ∈ definitions ∨ definition = default) known
          (.inl (among List.mem_cons_self)))
  exact registered definitions _ (List.Subset.refl _) (fun _ => .inr rfl) id

theorem not_loaded_ofDefinitions (options : Options) (definitions : List Definition)
    (id : DefinitionId) : ¬(ofDefinitions options definitions).Loaded id := by
  have cache : ∀ (added : List Definition) (context : Context),
      (added.foldl (fun context definition =>
        (context.register definition.name definition).2) context).cache = context.cache := by
    intro added
    induction added with
    | nil => exact fun _ => rfl
    | cons definition rest induction => exact fun context => induction _
  rintro ⟨name, found⟩
  exact nomatch (cache definitions _) ▸ found

theorem hasSlots_ofDefinitions (options : Options) (definitions : List Definition) :
    (ofDefinitions options definitions).HasSlots :=
  (sound_ofDefinitions options definitions False.elim).hasSlots

end Context

open Context

/-- Loading keeps a property of definitions, as long as no errors are reported. What the
property says of other definitions it says of loaded ones. -/
structure FrontEnd.Maintains (frontEnd : FrontEnd) (strict : Prop)
    (Holds : Context → Definition → Prop) : Prop where
  lasts : ∀ before after definition, KeepsLoaded before after → Holds before definition →
    Holds after definition
  default : ∀ context, Holds context default
  parses : ∀ context definition, frontEnd.Parses definition → Holds context definition
  changes : ∀ context original changed, (∀ id, Holds context (context.definition id)) →
    Definition.Change strict context original changed → Holds context original → Holds context changed
  copies : ∀ context definition name reference allowReferences bindings,
    definition.bindings? reference allowReferences = some bindings → Holds context definition →
    Holds context (definition.substitute name bindings)
  instances : ∀ context (request : InstanceRequest) name,
    (∀ id, Holds context (context.definition id)) → Holds context (request.bare context name)

namespace FrontEnd.Maintains

variable {frontEnd : FrontEnd} {strict : Prop} {Holds : Context → Definition → Prop}
  {before after : Context}

theorem grows (maintains : frontEnd.Maintains strict Holds)
    (all : ∀ id, Holds before (before.definition id)) {original changed : Definition}
    (grows : Definition.Grows strict before original changed) (holds : Holds before original) :
    Holds before changed := by
  induction grows with
  | refl => exact holds
  | tail _ change induction => exact maintains.changes _ _ _ all change induction

theorem edits (maintains : frontEnd.Maintains strict Holds)
    (all : ∀ id, Holds before (before.definition id)) {original changed : Definition}
    (edits : original.Edits changed) (holds : Holds before original) : Holds before changed :=
  maintains.grows all (.of_edits edits) holds

/-- What is maintained holds of all definitions after one more was registered. -/
theorem register (maintains : frontEnd.Maintains strict Holds) (slots : before.HasSlots)
    (all : ∀ id, Holds before (before.definition id)) (name : String) {added : Definition}
    (new : Holds before added) (id : DefinitionId) :
    Holds (before.register name added).2 ((before.register name added).2.definition id) := by
  have kept := (slots.register name added).1
  exact forall_push _ (fun id => maintains.lasts _ _ _ kept (all id))
    (maintains.lasts _ _ _ kept new) id

/-- What is maintained holds at the end of every way without errors. -/
theorem path (maintains : frontEnd.Maintains strict Holds) (path : Path frontEnd strict before after)
    (slots : before.HasSlots) (holds : ∀ id, Holds before (before.definition id))
    (silent : after.log.errors = []) : ∀ id, Holds after (after.definition id) := by
  induction path with
  | start => exact holds
  | reported path reports induction =>
      intro id
      rw [reports.definition]
      refine maintains.lasts _ _ _ (.of_reports reports) ?_
      exact induction (reports.evolves.errors_eq_nil silent) id
  | @loading middle loading _ induction =>
      have kept : KeepsLoaded middle { middle with loading } := .of_same rfl rfl fun _ _ _ => id
      exact fun id => maintains.lasts _ _ _ kept (induction silent id)
  | @remembered middle key target _ _ induction =>
      have kept : KeepsLoaded middle
          { middle with references := middle.references.insert key target } :=
        .of_same rfl rfl fun _ _ _ => id
      exact fun id => maintains.lasts _ _ _ kept (induction silent id)
  | @parsed middle definition path parses induction =>
      have kept := ((path.keepsLoaded slots).2.push definition).1
      exact forall_push _ (fun id => maintains.lasts _ _ _ kept (induction silent id))
        (maintains.parses _ _ parses)
  | copied name path asked _ induction =>
      exact maintains.register (path.keepsLoaded slots).2 (induction silent) name
        (maintains.copies _ _ name _ _ _ asked (induction silent _))
  | instantiated name request path edits _ induction =>
      exact maintains.register (path.keepsLoaded slots).2 (induction silent) name
        (maintains.edits (induction silent) edits
          (maintains.instances _ request name (induction silent)))
  | @written middle _ _ changed path making grows induction =>
      have kept := ((path.keepsLoaded slots).2.replace making changed).1
      refine forall_replace (fun id => maintains.lasts _ _ _ kept (induction silent id)) ?_
      exact maintains.lasts _ _ _ kept
        (maintains.grows (induction silent) (grows silent) (induction silent _))
  | finished _ _ path _ _ making absent _ _ _ induction =>
      have kept := ((path.keepsLoaded slots).2.finish making absent).1
      exact fun id => maintains.lasts _ _ _ kept (induction silent id)

end FrontEnd.Maintains

/-- A property that says nothing of other definitions and that merges, among other changes, do
not take away. -/
structure FrontEnd.Preserves (frontEnd : FrontEnd) (Holds : Definition → Prop) : Prop where
  default : Holds default
  parses : ∀ definition, frontEnd.Parses definition → Holds definition
  edit : ∀ original changed, Definition.Edit original changed → Holds original → Holds changed
  typeParameters : ∀ (definition : Definition) typeParameters,
    Holds definition → Holds { definition with typeParameters }
  components : ∀ (definition : Definition) components,
    List.Forall₂ Component.Resolves definition.components components →
    Holds definition → Holds { definition with components }
  parents : ∀ (definition : Definition) parents,
    Holds definition → Holds { definition with parents }
  marked : ∀ definition, Holds definition → Holds (Parents.markMerged definition)
  inheritable : ∀ definition, Holds definition → Holds (Inheritance.inheritable definition)
  merged : ∀ child parent checksMarkers,
    Inheritance.problems child parent checksMarkers = [] → Holds child → Holds parent →
    Holds (Inheritance.merged child parent)
  copy : ∀ (definition : Definition) name bindings, Holds definition →
    Holds (definition.substitute name bindings)
  bare : ∀ (request : InstanceRequest) (context : Context) name,
    Holds (context.definition request.generic) → Holds (request.bare context name)

namespace FrontEnd.Preserves

variable {frontEnd : FrontEnd} {Holds : Definition → Prop} {context : Context}

theorem handsOn (preserves : frontEnd.Preserves Holds)
    (all : ∀ id, Holds (context.definition id)) {ids : List DefinitionId}
    {inherited : Definition} (handsOn : context.HandsOn ids inherited) : Holds inherited := by
  induction handsOn with
  | first _ => exact preserves.inheritable _ (all _)
  | next _ _ accepted induction =>
      exact preserves.merged _ _ false accepted (preserves.inheritable _ (all _)) induction

theorem maintains {strict : Prop} (preserves : frontEnd.Preserves Holds) :
    frontEnd.Maintains strict fun _ => Holds where
  lasts _ _ _ _ := id
  default _ := preserves.default
  parses _ := preserves.parses
  changes context original changed all change holds := by
    cases change with
    | edited edit => exact preserves.edit _ _ edit holds
    | conforming => exact preserves.typeParameters _ _ holds
    | resolved related => exact preserves.components _ _ related holds
    | extended parents _ => exact preserves.parents _ parents holds
    | merged _ _ handsOn accepted =>
        exact preserves.marked _ (preserves.merged _ _ true accepted
          (preserves.parents _ _ holds) (preserves.handsOn all handsOn))
    | marked => exact preserves.marked _ holds
  copies _ _ _ _ _ _ _ := preserves.copy _ _ _
  instances _ request name all := preserves.bare request _ name (all _)

end FrontEnd.Preserves

end Adl
