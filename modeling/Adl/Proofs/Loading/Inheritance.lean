import Adl.Proofs.Loading.Scoping

namespace Adl

open Step Context

/-! What a definition takes over from one that it extends it keeps: it can stand in the place of
each of its parents. This is shown of the merge, and then of all that is done to a definition, to
its copies and to its instances. -/

namespace Definition

/-- All that a definition declares another one has too. A copy may have lost the capabilities for
parameters that it no longer has. -/
structure Subsumes (definition other : Definition) : Prop where
  interfaces : other.interfaces.map Interface.withoutTyped ⊆
    definition.interfaces.map Interface.withoutTyped
  internalInterfaces : other.internalInterfaces.map (·.name) ⊆
    definition.internalInterfaces.map (·.name)
  attributes : other.attributes.map (fun declared => (declared.name, declared.typeName)) ⊆
    definition.attributes.map fun declared => (declared.name, declared.typeName)
  components : other.components.map (·.name) ⊆ definition.components.map (·.name)
  sources : other.sources.map (·.path) ⊆ definition.sources.map (·.path)
  controllers : other.controllers.map Controller.withoutTyped ⊆
    definition.controllers.map Controller.withoutTyped
  capabilities : ∀ capability, other.has capability = true →
    definition.has capability = true ∨ capability = .formalParameters ∨
      capability = .formalTypeParameters

/-- A definition can stand in the place of one of a kind that its own kind may extend. -/
structure Substitutes (definition parent : Definition) : Prop
    extends definition.Subsumes parent where
  kind : Inheritance.kindViolation? definition.kind parent.kind = none

variable {original middle changed : Definition}

namespace Subsumes

theorem refl (definition : Definition) : definition.Subsumes definition where
  interfaces := List.Subset.refl _
  internalInterfaces := List.Subset.refl _
  attributes := List.Subset.refl _
  components := List.Subset.refl _
  sources := List.Subset.refl _
  controllers := List.Subset.refl _
  capabilities _ has := .inl has

theorem trans (later : changed.Subsumes middle) (first : middle.Subsumes original) :
    changed.Subsumes original where
  interfaces := List.Subset.trans first.interfaces later.interfaces
  internalInterfaces := List.Subset.trans first.internalInterfaces later.internalInterfaces
  attributes := List.Subset.trans first.attributes later.attributes
  components := List.Subset.trans first.components later.components
  sources := List.Subset.trans first.sources later.sources
  controllers := List.Subset.trans first.controllers later.controllers
  capabilities capability has :=
    (first.capabilities capability has).elim (later.capabilities capability) .inr

end Subsumes

/-- A new look at an element does not hide it. -/
theorem subset_map_modify {α β : Type} {read : α → β} (items : List α) (index : Nat) {change : α → α}
    (same : ∀ item, read (change item) = read item) :
    items.map read ⊆ (items.modify index change).map read := by
  rw [map_modify items index fun item _ => same item]
  exact List.Subset.refl _

theorem subset_map_append {α β : Type} {read : α → β} (items added : List α) :
    items.map read ⊆ (items ++ added).map read :=
  List.map_subset read (List.subset_append_left items added)

theorem Edit.subsumes (edit : Edit original changed) : changed.Subsumes original := by
  have same := Subsumes.refl original
  cases edit with
  | annotated path =>
      match path with
      | .interface _ => exact { same with interfaces := subset_map_modify _ _ fun _ => rfl }
      | .internalInterface _ =>
          exact { same with internalInterfaces := subset_map_modify _ _ fun _ => rfl }
      | .attribute _ => exact { same with attributes := subset_map_modify _ _ fun _ => rfl }
      | .component _ => exact { same with components := subset_map_modify _ _ fun _ => rfl }
      | .source _ => exact { same with sources := subset_map_modify _ _ fun _ => rfl }
      | .definition | .binding _ => exact { same with }
  | described _ grows => exact { same with capabilities := fun _ has => .inl (grows _ has) }
  | exposed => exact { same with interfaces := subset_map_append _ _ }
  | controlled => exact { same with controllers := subset_map_append _ _ }
  | flagged => exact { same with components := subset_map_modify _ _ fun _ => rfl }
  | delegated => exact { same with internalInterfaces := subset_map_append _ _ }
  | ordered perm => exact { same with interfaces := (perm.map _).symm.subset }
  | settled settles =>
      refine { same with attributes := ?_ }
      intro declared member
      obtain ⟨before, among, rfl⟩ := List.mem_map.mp member
      obtain ⟨after, stays, rfl | ⟨-, _, -, rfl⟩⟩ := exists_right_of_forall₂ settles before among
      · exact List.mem_map_of_mem stays
      · exact List.mem_map.mpr ⟨_, stays, rfl⟩
  | parameterized _ grows => exact { same with capabilities := fun _ has => .inl (grows _ has) }
  | forwarded => exact { same with components := subset_map_modify _ _ fun _ => rfl }
  | attached | rebound => exact { same with }

/-! ## Merging -/

/-- What bears a name of the child is not taken over, and all else is. -/
theorem subset_map_filter_append {α β : Type} {read : α → β} {inherited own : List α}
    {keep : α → Bool}
    (known : ∀ item ∈ inherited, keep item = false → read item ∈ own.map read) :
    inherited.map read ⊆ (inherited.filter keep ++ own).map read := by
  intro value member
  obtain ⟨item, among, rfl⟩ := List.mem_map.mp member
  rw [List.map_append]
  cases kept : keep item with
  | true =>
      exact List.mem_append_left _ (List.mem_map_of_mem (List.mem_filter.mpr ⟨among, kept⟩))
  | false => exact List.mem_append_right _ (known item among kept)

section Merging

variable {child parent : Definition} {checksMarkers : Bool}

theorem subsumes_child : (Inheritance.merged child parent).Subsumes child where
  interfaces := List.map_subset _ (List.subset_append_right _ _)
  internalInterfaces := List.map_subset _ (List.subset_append_right _ _)
  attributes := List.map_subset _ (List.subset_append_right _ _)
  components := List.map_subset _ (List.subset_append_right _ _)
  sources := List.map_subset _ (List.subset_append_right _ _)
  controllers := List.map_subset _ (List.subset_append_right _ _)
  capabilities _ has := .inl
    ((MemberSet.contains_union _ _ _).trans (Bool.or_eq_true_iff.mpr (.inl has)))

theorem typeName_of_accepted (accepted : Inheritance.problems child parent checksMarkers = [])
    {inherited own : Attribute} (member : inherited ∈ parent.attributes)
    (found : child.attribute? inherited.name = some own) : own.typeName = inherited.typeName := by
  have conflicts : Inheritance.attributeConflicts child parent = [] := by
    unfold Inheritance.problems at accepted
    simp only [List.append_eq_nil_iff] at accepted
    exact accepted.1.1.1.2
  have silent := List.filterMap_eq_nil_iff.mp conflicts inherited member
  rw [found] at silent
  by_contra different
  simp [different] at silent

/-- Where nothing is wrong with it, what the parent declares is there after the merge. -/
theorem subsumes_parent (accepted : Inheritance.problems child parent checksMarkers = []) :
    (Inheritance.merged child parent).Subsumes parent where
  interfaces := by
    refine subset_map_filter_append fun inherited member known => ?_
    obtain ⟨own, found⟩ := Option.isSome_iff_exists.mp (by simpa using known)
    rw [← Inheritance.isSame_of_accepted accepted member found]
    exact List.mem_map_of_mem (List.mem_of_find?_eq_some found)
  internalInterfaces := by
    refine subset_map_filter_append fun inherited _ known => ?_
    obtain ⟨own, found⟩ := Option.isSome_iff_exists.mp (by simpa using known)
    have named : own.name = inherited.name := by simpa using List.find?_some found
    exact List.mem_map.mpr ⟨own, List.mem_of_find?_eq_some found, named⟩
  attributes := by
    refine subset_map_filter_append fun inherited member known => ?_
    obtain ⟨own, found⟩ := Option.isSome_iff_exists.mp (by simpa using known)
    have named : own.name = inherited.name := by simpa using List.find?_some found
    exact List.mem_map.mpr ⟨own, List.mem_of_find?_eq_some found,
      Prod.ext named (typeName_of_accepted accepted member found)⟩
  components := by
    refine subset_map_filter_append fun inherited _ known => ?_
    obtain ⟨own, found⟩ := Option.isSome_iff_exists.mp (by simpa using known)
    have named : own.name = inherited.name := by simpa using List.find?_some found
    exact List.mem_map.mpr ⟨own, List.mem_of_find?_eq_some found, named⟩
  sources := by
    refine subset_map_filter_append fun inherited _ known => ?_
    obtain ⟨own, among, same⟩ := List.any_eq_true.mp (Bool.not_eq_eq_eq_not.mp known)
    exact List.mem_map.mpr ⟨own, among, beq_iff_eq.mp same⟩
  controllers := by
    refine subset_map_filter_append fun inherited _ known => ?_
    obtain ⟨own, among, same⟩ := List.any_eq_true.mp (Bool.not_eq_eq_eq_not.mp known)
    exact List.mem_map.mpr ⟨own, among, beq_iff_eq.mp same⟩
  capabilities _ has := .inl
    ((MemberSet.contains_union _ _ _).trans (Bool.or_eq_true_iff.mpr (.inr has)))

end Merging

/-! ## Several parents -/

section HandsOn

variable {context : Context} {ids : List DefinitionId} {inherited : Definition}

theorem subsumes_inheritable (definition : Definition) :
    (Inheritance.inheritable definition).Subsumes definition :=
  { Subsumes.refl definition with }

theorem subsumes_markMerged (definition : Definition) :
    (Parents.markMerged definition).Subsumes definition :=
  { Subsumes.refl definition with }

/-- All that one of the parents declares they hand on together. -/
theorem subsumes_of_handsOn (handsOn : context.HandsOn ids inherited) :
    ∀ id ∈ ids, inherited.Subsumes (context.definition id) := by
  induction handsOn with
  | first =>
      intro id member
      rw [List.mem_singleton.mp member]
      exact subsumes_inheritable _
  | next _ _ accepted induction =>
      intro id member
      rcases List.mem_append.mp member with earlier | last
      · exact (subsumes_parent accepted).trans (induction id earlier)
      · rw [List.mem_singleton.mp last]
        exact subsumes_child.trans (subsumes_inheritable _)

/-- What parents hand on has no capability that none of them has. -/
theorem has_of_handsOn (handsOn : context.HandsOn ids inherited) {capability : Capability}
    (has : inherited.has capability = true) :
    ∃ id ∈ ids, (context.definition id).has capability = true := by
  induction handsOn with
  | first => exact ⟨_, List.mem_singleton_self _, has⟩
  | next _ _ _ induction =>
      rcases Bool.or_eq_true_iff.mp ((MemberSet.contains_union _ _ _).symm.trans has) with own | handed
      · exact ⟨_, List.mem_append_right _ (List.mem_singleton_self _), own⟩
      · obtain ⟨id, member, among⟩ := induction handed
        exact ⟨id, List.mem_append_left _ member, among⟩

theorem legal_iff {child parent : DefinitionKind} :
    Inheritance.kindViolation? child parent = none ↔ parent = .type ∨ parent = child := by
  cases child <;> cases parent <;> simp [Inheritance.kindViolation?]

theorem has_merged (child parent : Definition) (capability : Capability) :
    (Inheritance.merged child parent).has capability =
      (child.has capability || parent.has capability) :=
  MemberSet.contains_union _ _ _

theorem kind_eq (definition : Definition) :
    definition.kind = if definition.has .components = true then .composite
      else if definition.has .implementation = true then .primitive else .type :=
  rfl

theorem has_components_iff {definition : Definition} :
    definition.has .components = true ↔ definition.kind = .composite := by
  rw [kind_eq]
  cases definition.has .components <;> cases definition.has .implementation <;> simp

theorem kind_ne_type {definition : Definition} (implements : definition.has .implementation = true) :
    definition.kind ≠ .type := by
  rw [kind_eq, implements]
  cases definition.has .components <;> simp

/-- The child stays of its kind whatever legal parents hand on. -/
theorem kind_merged {child : Definition} (handsOn : context.HandsOn ids inherited)
    (legal : ∀ id ∈ ids,
      Inheritance.kindViolation? child.kind (context.definition id).kind = none) :
    (Inheritance.merged child inherited).kind = child.kind := by
  have components : inherited.has .components = true → child.has .components = true := by
    intro has
    obtain ⟨id, member, among⟩ := has_of_handsOn handsOn has
    have composite := has_components_iff.mp among
    rcases legal_iff.mp (legal id member) with isType | same
    · exact nomatch composite.symm.trans isType
    · exact has_components_iff.mpr (same.symm.trans composite)
  have implementation : inherited.has .implementation = true → child.kind ≠ .type := by
    intro has isType
    obtain ⟨id, member, among⟩ := has_of_handsOn handsOn has
    rcases legal_iff.mp (legal id member) with parentIsType | same
    · exact kind_ne_type among parentIsType
    · exact kind_ne_type among (same.trans isType)
  rw [kind_eq, has_merged, has_merged]
  rw [kind_eq child] at implementation ⊢
  cases handsComponents : inherited.has .components with
  | true => simp [components handsComponents]
  | false =>
      rw [Bool.or_false]
      cases implements : inherited.has .implementation with
      | false => rw [Bool.or_false]
      | true =>
          have kinds := implementation implements
          revert kinds
          cases child.has .components <;> cases child.has .implementation <;> simp

end HandsOn

/-! ## Copies and instances -/

theorem subset_map_map {α β : Type} {read : α → β} (items : List α) {change : α → α}
    (same : ∀ item, read (change item) = read item) :
    items.map read ⊆ (items.map change).map read := by
  rw [List.map_map, show read ∘ change = read from funext same]
  exact List.Subset.refl _

/-- A copy has all that its original has, but for the capability of parameters. -/
theorem subsumes_substitute (definition : Definition) (name : String) (bindings : ValueBindings) :
    (definition.substitute name bindings).Subsumes definition where
  interfaces := List.Subset.refl _
  internalInterfaces := List.Subset.refl _
  attributes := subset_map_map _ fun _ => rfl
  components := subset_map_map _ (Component.name_substitute bindings)
  sources := List.Subset.refl _
  controllers := List.Subset.refl _
  capabilities capability has := by
    by_cases formal : capability = .formalParameters
    · exact .inr (.inl formal)
    · refine .inl (Eq.trans ?_ has)
      unfold Definition.has Definition.substitute
      dsimp only
      split
      · exact MemberSet.contains_erase_of_ne _ formal
      · rfl

theorem kind_substitute (definition : Definition) (name : String) (bindings : ValueBindings) :
    (definition.substitute name bindings).kind = definition.kind := by
  unfold Definition.kind Definition.substitute
  dsimp only
  split
  · exact DefinitionKind.ofCapabilities_erase _ (by decide) (by decide)
  · rfl

/-- An instance has all that its generic definition has, but for the capability of type
parameters. -/
theorem subsumes_bare (request : InstanceRequest) (context : Context) (name : String) :
    (request.bare context name).Subsumes (context.definition request.generic) where
  interfaces := List.Subset.refl _
  internalInterfaces := List.Subset.refl _
  attributes := List.Subset.refl _
  components := subset_map_map _ fun _ => Component.name_instantiate
  sources := List.Subset.refl _
  controllers := List.Subset.refl _
  capabilities capability has := by
    by_cases formal : capability = .formalTypeParameters
    · exact .inr (.inr formal)
    · refine .inl (Eq.trans ?_ has)
      unfold Definition.has InstanceRequest.bare
      dsimp only
      split
      · exact MemberSet.contains_erase_of_ne _ formal
      · rfl

theorem kind_bare (request : InstanceRequest) (context : Context) (name : String) :
    (request.bare context name).kind = (context.definition request.generic).kind := by
  unfold Definition.kind InstanceRequest.bare
  dsimp only
  split
  · exact DefinitionKind.ofCapabilities_erase _ (by decide) (by decide)
  · rfl

end Definition

/-! ## The parents of what is loaded -/

namespace Context

variable {strict : Prop} {context before after : Context} {definition : Definition}

/-- Where the parents of a definition were merged, its references designate loaded definitions in
the place of which it can stand. -/
def IsHeir (context : Context) (definition : Definition) : Prop :=
  definition.decorations.extendsMerged = true → ∀ reference ∈ definition.parents,
    ∃ parent, reference.resolvedId? = some parent ∧ context.Loaded parent ∧
      definition.Substitutes (context.definition parent)

namespace IsHeir

theorem lasts (kept : KeepsLoaded before after) (isHeir : before.IsHeir definition) :
    after.IsHeir definition := by
  intro merged reference member
  obtain ⟨parent, resolved, loaded, substitutes⟩ := isHeir merged reference member
  exact ⟨parent, resolved, kept.loaded loaded, kept.definition parent loaded ▸ substitutes⟩

/-- What declares no less and is of the same kind takes the place of the same parents. -/
theorem later {changed : Definition} (isHeir : context.IsHeir definition)
    (merged : changed.decorations.extendsMerged = definition.decorations.extendsMerged)
    (parents : changed.parents = definition.parents) (subsumes : changed.Subsumes definition)
    (kind : changed.kind = definition.kind) : context.IsHeir changed := by
  intro isMerged reference member
  rw [merged] at isMerged
  rw [parents] at member
  obtain ⟨parent, resolved, loaded, substitutes⟩ := isHeir isMerged reference member
  exact ⟨parent, resolved, loaded, subsumes.trans substitutes.toSubsumes, kind ▸ substitutes.kind⟩

theorem change {original changed : Definition} (isStrict : strict)
    (change : Definition.Change strict context original changed) (isHeir : context.IsHeir original) :
    context.IsHeir changed := by
  cases change with
  | edited edit =>
      exact isHeir.later edit.keeps.extendsMerged edit.parents edit.subsumes edit.kind
  | conforming =>
      exact isHeir.later rfl rfl { Definition.Subsumes.refl original with } rfl
  | resolved related =>
      refine isHeir.later rfl rfl { Definition.Subsumes.refl original with components := ?_ } rfl
      intro name member
      obtain ⟨component, among, rfl⟩ := List.mem_map.mp member
      obtain ⟨after, stays, _, _, rfl, -⟩ := exists_right_of_forall₂ related component among
      exact List.mem_map.mpr ⟨_, stays, rfl⟩
  | extended parents unmerged => exact fun merged => nomatch unmerged.symm.trans merged
  | @merged parents ids inherited _ parented handsOn accepted =>
      intro _ reference member
      have whole := parented.whole isStrict
      have listed : reference.resolvedId? ∈ ids.map some :=
        whole ▸ List.mem_map_of_mem member
      obtain ⟨parent, among, resolved⟩ := List.mem_map.mp listed
      refine ⟨parent, resolved.symm, handsOn.loaded parent among, ?_, ?_⟩
      · exact (Definition.subsumes_markMerged _).trans ((Definition.subsumes_parent accepted).trans
          (Definition.subsumes_of_handsOn handsOn parent among))
      · exact (Definition.kind_merged handsOn parented.legal).symm ▸ parented.legal parent among
  | marked orphaned =>
      intro _ reference member
      have none : original.parents = [] := orphaned isStrict
      exact nomatch none ▸ member

end IsHeir

end Context

namespace FrontEnd

variable {frontEnd : FrontEnd}

theorem maintains_isHeir {strict : Prop} (isStrict : strict)
    (parses : ∀ definition, frontEnd.Parses definition →
      definition.decorations.extendsMerged = false) :
    frontEnd.Maintains strict Context.IsHeir where
  lasts _ _ _ kept isHeir := isHeir.lasts kept
  default _ merged := nomatch merged
  parses _ definition parsed merged := nomatch (parses definition parsed).symm.trans merged
  changes _ _ _ _ change isHeir := isHeir.change isStrict change
  copies _ definition name _ _ bindings _ isHeir :=
    isHeir.later rfl rfl (definition.subsumes_substitute name bindings)
      (definition.kind_substitute name bindings)
  instances context request name all :=
    (all request.generic).later rfl rfl (Definition.subsumes_bare request context name)
      (Definition.kind_bare request context name)

/-- Where a compilation of undecorated definitions succeeds, all that it loads can stand in the
place of what it extends. -/
theorem inheritance_substitutable (frontEnd : FrontEnd) (options : Options)
    (definitions : List Definition) (roots : List String)
    (predefined : frontEnd.registry = .predefined) (plain : frontEnd.ParsesPlainly)
    (undecorated : ∀ definition, definition ∈ definitions ∨ frontEnd.Parses definition →
      definition.decorations = .none ∧
        ∀ component ∈ definition.components, component.resolved = none) {compiled : Compiled}
    (succeeds : (frontEnd.compile (.ofDefinitions options definitions) roots).outcome =
      .ok compiled) (id : DefinitionId) (loaded : compiled.context.Loaded id) :
    ∀ reference ∈ (compiled.context.definition id).parents,
      ∃ parent, reference.resolvedId? = some parent ∧ compiled.context.Loaded parent ∧
        (compiled.context.definition id).Substitutes (compiled.context.definition parent) := by
  have harmless : frontEnd.registry.IsHarmless :=
    predefined ▸ AnnotationRegistry.isHarmless_predefined
  obtain ⟨silent, path, closedOn⟩ := closedOn_of_compile harmless
    (fun _ : True => plain) (fun _ definition member => (undecorated definition (.inl member)).2) succeeds
  obtain ⟨name, middle, before, closed⟩ := closedOn id loaded
  have unmerged : ∀ definition, definition ∈ definitions ∨ frontEnd.Parses definition →
      definition.decorations.extendsMerged = false := fun definition known => by
    rw [(undecorated definition known).1]
    rfl
  have isHeir := (maintains_isHeir trivial fun definition parsed =>
      unmerged definition (.inr parsed)).ofDefinitions
    (fun definition member merged =>
      nomatch (unmerged definition (.inl member)).symm.trans merged) path silent id
  refine isHeir ?_
  obtain ⟨_, -, grew⟩ := closed.grew
  rw [closed.definition, (closed.edited harmless).edits.keeps.extendsMerged]
  exact grew.merged

/-- A primitive that extends a type and a copy of another primitive, which extends a type too. -/
def descending : List Definition :=
  [ { Definition.ofKind "a.T" .type with interfaces := [.ofRole .server "x" "s"] },
    { Definition.ofKind "a.V" .type with interfaces := [.ofRole .client "y" "s"] },
    { (Definition.ofKind "a.P" .primitive).ensureParameter "size" with
      parents := [.ofName "a.T"]
      attributes := [⟨"n", "int", some (.reference "size"), .generated, .none⟩]
      sources := [.ofPath "p.c"] },
    { Definition.ofKind "a.Q" .primitive with
      parents :=
        [⟨"a.P", [⟨some "size", .number 4, .generated⟩], [], .generated, none⟩, .ofName "a.V"] } ]

/-- The primitive has what both parents declare, and its attribute the value that it asked for. -/
theorem descended_substitutably :
    ∃ compiled, (registeredOnly.compile (.ofDefinitions .default descending) ["a.Q"]).outcome =
        .ok compiled ∧
      compiled.context.Loaded 3 ∧
      (compiled.context.definition 3).interfaces.map (·.name) = ["x", "y"] ∧
      (compiled.context.definition 3).attributes.map (·.value) = [some (.number 4)] ∧
      ∃ reference ∈ (compiled.context.definition 3).parents, ∃ parent,
        reference.resolvedId? = some parent ∧
          (compiled.context.definition parent).name = "a.P(size=4)" ∧
          (compiled.context.definition 3).Substitutes (compiled.context.definition parent) := by
  have succeeds : (registeredOnly.compile (.ofDefinitions .default descending)
      ["a.Q"]).outcome.toOption.any (fun compiled => compiled.context.cache.find? "a.Q" = some 3 ∧
        (compiled.context.definition 3).interfaces.map (·.name) = ["x", "y"] ∧
        (compiled.context.definition 3).attributes.map (·.value) = [some (.number 4)] ∧
        ∃ reference ∈ (compiled.context.definition 3).parents,
          ∃ parent ∈ reference.resolvedId?,
            (compiled.context.definition parent).name = "a.P(size=4)") = true := by
    decide +kernel
  obtain ⟨compiled, outcome, found, interfaces, values, reference, member, parent, resolved, named⟩ :=
    exists_ok_of_any succeeds
  have undecorated : ∀ definition ∈ descending, definition.decorations = .none ∧
      ∀ component ∈ definition.components, component.resolved = none := by
    decide
  obtain ⟨other, also, -, substitutes⟩ := inheritance_substitutable registeredOnly .default
    descending ["a.Q"] rfl parsesPlainly_registeredOnly
    (fun definition known => known.elim (undecorated definition)
      fun ⟨_, _, _, _, isParser, _⟩ => nomatch isParser)
    outcome 3 ⟨"a.Q", found⟩ reference member
  cases (Option.mem_def.mp resolved).symm.trans also
  exact ⟨compiled, outcome, ⟨"a.Q", found⟩, interfaces, values, reference, member, parent, also, named,
    substitutes⟩

end FrontEnd

end Adl
