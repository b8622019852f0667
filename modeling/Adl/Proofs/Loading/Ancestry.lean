import Adl.Proofs.Definition.Declarations

namespace Adl

open Context

/-! Where the declarations of a definition come from. Every definition is made from one that was
given, perhaps as a copy or an instance of it; beside what that one declares it has what its
ancestors declare, and control interfaces. -/

namespace Context

variable {before after context : Context}

/-- A definition is loaded as one of the parents, or as a parent of an ancestor. -/
inductive Ancestor (context : Context) (parents : List Reference) : DefinitionId → Prop
  | parent {reference : Reference} {id : DefinitionId} : reference ∈ parents →
      reference.resolvedId? = some id → context.Loaded id → Ancestor context parents id
  | further {reference : Reference} {id ancestor : DefinitionId} : Ancestor context parents id →
      reference ∈ (context.definition id).parents → reference.resolvedId? = some ancestor →
      context.Loaded ancestor → Ancestor context parents ancestor

namespace Ancestor

variable {parents : List Reference} {id ancestor : DefinitionId}

theorem loaded (isAncestor : context.Ancestor parents id) : context.Loaded id := by
  cases isAncestor with
  | parent _ _ loaded => exact loaded
  | further _ _ _ loaded => exact loaded

theorem trans (first : context.Ancestor parents id)
    (second : context.Ancestor (context.definition id).parents ancestor) :
    context.Ancestor parents ancestor := by
  induction second with
  | parent member resolved loaded => exact .further first member resolved loaded
  | further _ member resolved loaded induction => exact .further induction member resolved loaded

theorem lasts (kept : KeepsLoaded before after) (isAncestor : before.Ancestor parents id) :
    after.Ancestor parents id := by
  induction isAncestor with
  | parent member resolved loaded => exact .parent member resolved (kept.loaded loaded)
  | further first member resolved loaded induction =>
      refine .further induction ?_ resolved (kept.loaded loaded)
      rwa [kept.definition _ first.loaded]

end Ancestor

/-- A definition was made from the one that is its origin. -/
structure Originates (context : Context) (origin : DefinitionId → Definition) (id : DefinitionId)
    (definition : Definition) : Prop where
  named : NamedAfter (origin id).name definition.name
  declares : (origin id).declarations ⊆ definition.declarations
  declared : ∀ declaration ∈ definition.declarations,
    declaration ∈ (origin id).declarations ∨ declaration.IsControl ∨
      definition.decorations.extendsMerged = true ∧ ∃ ancestor,
        context.Ancestor definition.parents ancestor ∧ declaration ∈ (origin ancestor).declarations
  once : (origin id).declaredKeys.Nodup →
    (definition.decorations.extendsMerged = true → ∀ ancestor,
      context.Ancestor definition.parents ancestor → (origin ancestor).declaredKeys.Nodup) →
    definition.declaredKeys.Nodup
  unmarked : definition.decorations.extendsMerged = false → (origin id).IsUnmarked →
    definition.IsUnmarked

namespace Originates

variable {origin other : DefinitionId → Definition} {id slot : DefinitionId}
  {definition original changed : Definition}

/-- What was given is its own origin. -/
theorem itself (isOrigin : origin id = definition) : context.Originates origin id definition where
  named := isOrigin ▸ .refl _
  declares := isOrigin ▸ List.Subset.refl _
  declared _ member := .inl (isOrigin ▸ member)
  once single _ := isOrigin ▸ single
  unmarked _ unmarked := isOrigin ▸ unmarked

/-- The origins of a definition and of its ancestors are all that counts. -/
theorem lasts (originates : before.Originates origin id definition)
    (kept : KeepsLoaded before after) (same : other slot = origin id)
    (loaded : ∀ ancestor, before.Loaded ancestor → other ancestor = origin ancestor) :
    after.Originates other slot definition where
  named := same ▸ originates.named
  declares := same ▸ originates.declares
  declared declaration member := by
    rw [same]
    refine (originates.declared declaration member).imp_right (Or.imp_right ?_)
    rintro ⟨merged, ancestor, isAncestor, among⟩
    exact ⟨merged, ancestor, isAncestor.lasts kept, (loaded ancestor isAncestor.loaded).symm ▸ among⟩
  once single others := by
    refine originates.once (same ▸ single) fun merged ancestor isAncestor => ?_
    exact loaded ancestor isAncestor.loaded ▸ others merged ancestor (isAncestor.lasts kept)
  unmarked unmerged unmarked := originates.unmarked unmerged (same ▸ unmarked)

/-- What declares the same and has the same parents has the same origin. -/
theorem later (originates : context.Originates origin id original)
    (same : other slot = origin id)
    (loaded : ∀ ancestor, context.Loaded ancestor → other ancestor = origin ancestor)
    (named : NamedAfter original.name changed.name)
    (declarations : changed.declarations = original.declarations)
    (merged : changed.decorations.extendsMerged = original.decorations.extendsMerged)
    (parents : changed.parents = original.parents)
    (unmarked : original.IsUnmarked → changed.IsUnmarked) :
    context.Originates other slot changed := by
  have kept := originates.lasts (.refl context) same loaded
  refine ⟨kept.named.trans named, ?_, ?_, ?_, ?_⟩
  · exact declarations ▸ kept.declares
  · rw [declarations, merged, parents]
    exact kept.declared
  · have keys : changed.declaredKeys = original.declaredKeys := congrArg (List.map Declaration.key) declarations
    rw [keys, merged, parents]
    exact kept.once
  · rw [merged]
    exact fun unmerged isUnmarked => unmarked (kept.unmarked unmerged isUnmarked)

theorem edit (edit : original.Edit changed) (originates : context.Originates origin id original) :
    context.Originates origin id changed where
  named := edit.keeps.name.symm ▸ originates.named
  declares := List.Subset.trans originates.declares edit.subset_declarations
  declared declaration member := by
    rw [edit.keeps.extendsMerged, edit.parents]
    rcases edit.mem_declarations member with old | control
    · exact originates.declared declaration old
    · exact .inr (.inl control)
  once single others := by
    rw [edit.keeps.extendsMerged, edit.parents] at others
    exact edit.nodup (originates.once single others)
  unmarked unmerged unmarked := by
    rw [edit.keeps.extendsMerged] at unmerged
    exact (originates.unmarked unmerged unmarked).edit Annotations.survives_isUnmarked edit

theorem edits (edits : original.Edits changed)
    (originates : context.Originates origin id original) : context.Originates origin id changed := by
  induction edits with
  | refl => exact originates
  | tail _ edit induction => exact induction.edit edit

/-! ## Merges -/

section Handed

variable {ids : List DefinitionId} {inherited : Definition}

/-- All that parents hand on one of them declares. -/
theorem exists_of_handsOn (handsOn : context.HandsOn ids inherited) {declaration : Declaration}
    (member : declaration ∈ inherited.declarations) :
    ∃ id ∈ ids, declaration ∈ (context.definition id).declarations := by
  induction handsOn with
  | first => exact ⟨_, List.mem_singleton_self _, member⟩
  | next _ _ _ induction =>
      rcases Definition.mem_of_mem_merged member with own | handed
      · exact ⟨_, List.mem_append_right _ (List.mem_singleton_self _), own⟩
      · obtain ⟨id, among, declared⟩ := induction handed
        exact ⟨id, List.mem_append_left _ among, declared⟩

theorem nodup_of_handsOn (handsOn : context.HandsOn ids inherited)
    (once : ∀ id ∈ ids, (context.definition id).declaredKeys.Nodup) :
    inherited.declaredKeys.Nodup := by
  induction handsOn with
  | first => exact once _ (List.mem_singleton_self _)
  | next _ _ _ induction =>
      exact Definition.nodup_merged (once _ (List.mem_append_right _ (List.mem_singleton_self _)))
        (induction fun id among => once id (List.mem_append_left _ among))

end Handed

/-- A merge adds what ancestors declare. -/
theorem merge {parents : List Reference} {ids : List DefinitionId} {inherited : Definition}
    (all : ∀ id, context.Originates origin id (context.definition id))
    (unmerged : original.decorations.extendsMerged = false)
    (designated : ∀ id ∈ ids, ∃ reference ∈ parents, reference.resolvedId? = some id)
    (handsOn : context.HandsOn ids inherited) (originates : context.Originates origin id original) :
    context.Originates origin id
      (Parents.markMerged (Inheritance.merged { original with parents } inherited)) := by
  have isParent : ∀ parent ∈ ids, context.Ancestor parents parent := by
    intro parent among
    obtain ⟨reference, member, resolved⟩ := designated parent among
    exact .parent member resolved (handsOn.loaded parent among)
  refine ⟨originates.named, ?_, ?_, ?_, nofun⟩
  · exact List.Subset.trans originates.declares Definition.subset_declarations_merged
  · intro declaration member
    rcases Definition.mem_of_mem_merged member with own | handed
    · rcases originates.declared declaration own with first | control | ⟨merged, -⟩
      · exact .inl first
      · exact .inr (.inl control)
      · exact nomatch unmerged.symm.trans merged
    · obtain ⟨parent, among, declared⟩ := exists_of_handsOn handsOn handed
      rcases (all parent).declared declaration declared with first | control |
        ⟨-, ancestor, isAncestor, further⟩
      · exact .inr (.inr ⟨rfl, parent, isParent parent among, first⟩)
      · exact .inr (.inl control)
      · exact .inr (.inr ⟨rfl, ancestor, (isParent parent among).trans isAncestor, further⟩)
  · intro single others
    refine Definition.nodup_merged
      (originates.once single fun merged => nomatch unmerged.symm.trans merged)
      (nodup_of_handsOn handsOn fun parent among => ?_)
    exact (all parent).once (others rfl parent (isParent parent among))
      fun _ ancestor isAncestor => others rfl ancestor ((isParent parent among).trans isAncestor)

theorem change {strict : Prop} (all : ∀ id, context.Originates origin id (context.definition id))
    (change : Definition.Change strict context original changed)
    (originates : context.Originates origin id original) : context.Originates origin id changed := by
  cases change with
  | edited edit => exact originates.edit edit
  | conforming =>
      exact originates.later rfl (fun _ _ => rfl) (.refl _) rfl rfl rfl fun unmarked =>
        { unmarked with }
  | resolved related =>
      refine originates.later rfl (fun _ _ => rfl) (.refl _) ?_ rfl rfl fun unmarked =>
        unmarked.resolved related
      refine Definition.declarations_congr rfl rfl ?_ rfl
      generalize original.components = declared at related
      induction related with
      | nil => rfl
      | cons resolves _ induction =>
          obtain ⟨_, _, rfl, -⟩ := resolves
          rw [List.map_cons, List.map_cons, induction]
  | extended parents unmerged =>
      have own := originates.once
      refine ⟨originates.named, originates.declares, fun declaration member => ?_,
        fun single _ => own single fun merged => (nomatch unmerged.symm.trans merged),
        fun free unmarked => { originates.unmarked free unmarked with }⟩
      rcases originates.declared declaration member with first | control | ⟨merged, -⟩
      · exact .inl first
      · exact .inr (.inl control)
      · exact nomatch unmerged.symm.trans merged
  | merged unmerged parented handsOn _ =>
      exact originates.merge all unmerged parented.designated handsOn
  | marked =>
      refine ⟨originates.named, originates.declares, fun declaration member => ?_,
        fun single others => originates.once single fun _ => others rfl, nofun⟩
      exact (originates.declared declaration member).imp_right (Or.imp_right fun inherited =>
        ⟨rfl, inherited.2⟩)

theorem grows {strict : Prop} (all : ∀ id, context.Originates origin id (context.definition id))
    (grows : Definition.Grows strict context original changed)
    (originates : context.Originates origin id original) : context.Originates origin id changed := by
  induction grows with
  | refl => exact originates
  | tail _ change induction => exact induction.change all change


end Originates

/-! ## Loading -/

/-- Each definition has an origin among given ones. -/
def HasOrigins (context : Context) (Given : Definition → Prop)
    (origin : DefinitionId → Definition) : Prop :=
  ∀ id, Given (origin id) ∧ context.Originates origin id (context.definition id)

namespace HasOrigins

variable {Given : Definition → Prop} {origin : DefinitionId → Definition}

theorem lasts (origins : before.HasOrigins Given origin) (kept : KeepsLoaded before after)
    (same : ∀ id, after.definition id = before.definition id) : after.HasOrigins Given origin :=
  fun id => ⟨(origins id).1, same id ▸ (origins id).2.lasts kept rfl fun _ _ => rfl⟩

/-- A new definition brings its origin along. -/
theorem push (origins : before.HasOrigins Given origin) (slots : before.HasSlots)
    (kept : KeepsLoaded before after) {added declared : Definition}
    (arena : after.arena = before.arena.push added) (given : Given declared)
    (new : ∀ other : DefinitionId → Definition, other before.arena.size = declared →
      (∀ ancestor, before.Loaded ancestor → other ancestor = origin ancestor) →
      before.Originates other before.arena.size added) :
    after.HasOrigins Given (Function.update origin before.arena.size declared) := by
  have loaded : ∀ ancestor, before.Loaded ancestor →
      Function.update origin before.arena.size declared ancestor = origin ancestor :=
    fun ancestor isLoaded => Function.update_of_ne (Nat.ne_of_lt (slots ancestor isLoaded)) _ _
  have stored : ∀ id, after.definition id =
      { before with arena := before.arena.push added }.definition id := fun id => by
    simp only [definition, arena]
  intro id
  rcases Nat.lt_trichotomy id before.arena.size with within | rfl | beyond
  · have different := Nat.ne_of_lt within
    rw [Function.update_of_ne different, stored, definition_push before added within]
    exact ⟨(origins id).1, (origins id).2.lasts kept (Function.update_of_ne different _ _) loaded⟩
  · rw [stored, definition_push_size, Function.update_self]
    refine ⟨given, (new _ (Function.update_self ..) loaded).lasts kept rfl fun _ _ => rfl⟩
  · have different := Nat.ne_of_gt beyond
    have absent : after.definition id = before.definition id := by
      rw [default_of_size_le (Nat.le_of_lt beyond)]
      refine default_of_size_le ?_
      rw [arena, Array.size_push]
      exact beyond
    rw [Function.update_of_ne different, absent]
    exact ⟨(origins id).1, (origins id).2.lasts kept (Function.update_of_ne different _ _) loaded⟩

theorem replace (origins : before.HasOrigins Given origin) (slots : before.HasSlots) {name : String}
    {slot : DefinitionId} (making : Making name slot before) {changed : Definition}
    (new : before.Originates origin slot changed) :
    (before.replace slot changed).HasOrigins Given origin := by
  have kept := (slots.replace making changed).1
  intro id
  refine ⟨(origins id).1, ?_⟩
  by_cases same : slot = id
  · cases same
    rw [definition_replace before changed making.within]
    exact new.lasts kept rfl fun _ _ => rfl
  · rw [definition_replace_of_ne before changed same]
    exact (origins id).2.lasts kept rfl fun _ _ => rfl

end HasOrigins

/-- Wherever loading comes to without errors, all definitions have origins. -/
theorem Path.exists_origins {frontEnd : FrontEnd} {strict : Prop} {Given : Definition → Prop}
    (parses : ∀ definition, frontEnd.Parses definition → Given definition)
    (path : Path frontEnd strict before after) (slots : before.HasSlots)
    (start : ∃ origin, before.HasOrigins Given origin) (silent : after.log.errors = []) :
    ∃ origin, after.HasOrigins Given origin := by
  induction path with
  | start => exact start
  | reported path reports induction =>
      obtain ⟨origin, origins⟩ := induction (reports.evolves.errors_eq_nil silent)
      exact ⟨origin, origins.lasts (.of_reports reports) reports.definition⟩
  | loading _ _ induction =>
      obtain ⟨origin, origins⟩ := induction silent
      exact ⟨origin, origins.lasts (.of_same rfl rfl fun _ _ _ => id) fun _ => rfl⟩
  | remembered _ _ _ induction =>
      obtain ⟨origin, origins⟩ := induction silent
      exact ⟨origin, origins.lasts (.of_same rfl rfl fun _ _ _ => id) fun _ => rfl⟩
  | parsed path isParsed induction =>
      obtain ⟨origin, origins⟩ := induction silent
      have slots := (path.keepsLoaded slots).2
      exact ⟨_, origins.push slots (slots.push _).1 rfl (parses _ isParsed)
        fun _ isOrigin _ => .itself isOrigin⟩
  | @copied middle name target _ _ bindings path _ named induction =>
      obtain ⟨origin, origins⟩ := induction silent
      have slots := (path.keepsLoaded slots).2
      refine ⟨_, origins.push slots (slots.register name _).1 rfl (origins target).1
        fun _ isOrigin loaded => ?_⟩
      exact (origins target).2.later isOrigin loaded named
        (Definition.declarations_substitute _ name bindings) rfl rfl fun unmarked =>
          unmarked.copy name bindings
  | @instantiated middle name request made path edits named induction =>
      obtain ⟨origin, origins⟩ := induction silent
      have slots := (path.keepsLoaded slots).2
      refine ⟨_, origins.push slots (slots.register name _).1 rfl (origins request.generic).1
        fun other isOrigin loaded => ?_⟩
      have bare : middle.Originates other middle.arena.size (request.bare middle name) :=
        (origins request.generic).2.later isOrigin loaded named
          (Definition.declarations_bare request middle name) rfl rfl fun unmarked => unmarked.bare name
      exact bare.edits edits
  | written path making grows induction =>
      obtain ⟨origin, origins⟩ := induction silent
      exact ⟨origin, origins.replace (path.keepsLoaded slots).2 making
        ((origins _).2.grows (fun id => (origins id).2) (grows silent))⟩
  | finished _ _ path _ _ making absent _ _ _ induction =>
      obtain ⟨origin, origins⟩ := induction silent
      exact ⟨origin, origins.lasts ((path.keepsLoaded slots).2.finish making absent).1 fun _ => rfl⟩

end Context

end Adl
