import Adl.Proofs.Loading.Closing

namespace Adl

open Step Context

/-! Which parameters the values in a definition refer to. Where those of registered and parsed
definitions refer to parameters of these, the values of any definition refer to parameters of
it, or of one that it extends. -/

/-- The values in the reference of a sub-component. -/
def Component.values (component : Component) : List Value :=
  (component.definition.map Reference.values).getD []

namespace Definition

/-- A value of a sub-component refers to the parameter. -/
def Uses (definition : Definition) (parameter : String) : Prop :=
  ∃ component ∈ definition.components, Value.reference parameter ∈ component.values

instance (definition : Definition) (parameter : String) :
    Decidable (definition.Uses parameter) :=
  inferInstanceAs (Decidable (∃ component ∈ definition.components, _))

/-- The values of the sub-components refer to parameters of the definition. -/
def UsesOwn (definition : Definition) : Prop :=
  ∀ parameter, definition.Uses parameter → definition.hasParameter parameter = true

theorem usesOwn_iff {definition : Definition} :
    definition.UsesOwn ↔ ∀ component ∈ definition.components, ∀ value ∈ component.values,
      value.reference?.all definition.hasParameter = true := by
  constructor
  · intro own component member value among
    cases value with
    | reference parameter => exact own parameter ⟨component, member, among⟩
    | _ => rfl
  · rintro all parameter ⟨component, member, among⟩
    exact all component member _ among

instance (definition : Definition) : Decidable definition.UsesOwn :=
  decidable_of_iff' _ usesOwn_iff

/-- An attribute refers to the parameter. -/
def Refers (definition : Definition) (parameter : String) : Prop :=
  ∃ declared ∈ definition.attributes, declared.value = some (.reference parameter)

/-- The attributes refer to parameters of the definition. -/
def RefersOwn (definition : Definition) : Prop :=
  ∀ parameter, definition.Refers parameter → definition.hasParameter parameter = true

theorem not_uses_of_nil {definition : Definition} (empty : definition.components = [])
    (parameter : String) : ¬definition.Uses parameter := by
  rintro ⟨component, member, -⟩
  rw [empty] at member
  exact nomatch member

variable {original changed : Definition} {parameter : String}

/-- What is used after one sub-component was changed was used before, or this uses it. -/
theorem uses_of_modify {index : Nat} {change : Component → Component}
    (uses : { original with components := original.components.modify index change }.Uses
      parameter) :
    original.Uses parameter ∨ ∃ component ∈ original.components,
      Value.reference parameter ∈ (change component).values := by
  obtain ⟨component, member, among⟩ := uses
  rcases exists_of_mem_modify member with old | ⟨other, found, rfl⟩
  · exact .inl ⟨component, old, among⟩
  · exact .inr ⟨other, List.mem_of_getElem? found, among⟩

theorem mem_values_forwardArgument {value : Value} {passed hoisted : String}
    {component : Component} (member : value ∈ (forwardArgument passed hoisted component).values) :
    value ∈ component.values ∨ value = .reference hoisted := by
  unfold Component.values forwardArgument at *
  cases isDefinition : component.definition with
  | none =>
      rw [isDefinition] at member
      exact nomatch member
  | some reference =>
      rw [isDefinition] at member
      simp only [Option.map_some, Option.getD_some, Reference.values_eq, List.map_append,
        List.map_cons, List.map_nil, List.mem_append, List.mem_singleton] at member ⊢
      rcases member with (old | new) | nested
      · exact .inl (.inl old)
      · exact .inr new
      · exact .inl (.inr nested)

namespace Edit

theorem parameters (edit : Edit original changed) :
    original.parameters <+: changed.parameters := by
  cases edit with
  | annotated path => cases path <;> exact List.prefix_refl _
  | parameterized => exact List.prefix_append _ _
  | _ => exact List.prefix_refl _

theorem hasParameter (edit : Edit original changed)
    (declared : original.hasParameter parameter = true) : changed.hasParameter parameter = true := by
  obtain ⟨formal, member, named⟩ := List.any_eq_true.mp declared
  exact List.any_eq_true.mpr ⟨formal, edit.parameters.subset member, named⟩

/-- What is used after an edit was used before, or is declared. -/
theorem uses (edit : Edit original changed) (uses : changed.Uses parameter) :
    original.Uses parameter ∨ changed.hasParameter parameter = true := by
  cases edit with
  | annotated path =>
      cases path with
      | component index =>
          refine .inl ((uses_of_modify uses).elim id ?_)
          exact fun ⟨component, member, among⟩ => ⟨component, member, among⟩
      | _ => exact .inl uses
  | flagged index =>
      refine .inl ((uses_of_modify uses).elim id ?_)
      exact fun ⟨component, member, among⟩ => ⟨component, member, among⟩
  | @forwarded passed index hoisted declared _ =>
      rcases uses_of_modify uses with old | ⟨component, member, among⟩
      · exact .inl old
      · rcases mem_values_forwardArgument among with old | equal
        · exact .inl ⟨component, member, old⟩
        · cases equal
          exact .inr declared
  | _ => exact .inl uses

/-- A parameter that an attribute refers to after an edit, it referred to before. -/
theorem refers (edit : Edit original changed) (refers : changed.Refers parameter) :
    original.Refers parameter := by
  cases edit with
  | annotated path =>
      match path with
      | .attribute index =>
          obtain ⟨declared, member, isReference⟩ := refers
          rcases exists_of_mem_modify member with old | ⟨other, found, rfl⟩
          · exact ⟨declared, old, isReference⟩
          · exact ⟨other, List.mem_of_getElem? found, isReference⟩
      | .definition | .interface _ | .internalInterface _ | .component _ | .binding _
      | .source _ => exact refers
  | settled settles =>
      obtain ⟨declared, member, isReference⟩ := refers
      obtain ⟨before, beforeMember, rfl | ⟨-, value, isLiteral, rfl⟩⟩ :=
        exists_left_of_forall₂ settles declared member
      · exact ⟨_, beforeMember, isReference⟩
      · cases isReference
        exact nomatch isLiteral
  | _ => exact refers

end Edit

theorem RefersOwn.edits (own : original.RefersOwn) (edits : original.Edits changed) :
    changed.RefersOwn := by
  induction edits with
  | refl => exact own
  | tail _ edit induction =>
      exact fun parameter refers => edit.hasParameter (induction parameter (edit.refers refers))

end Definition

/-! ## Copies and instances -/

namespace Reference

variable {bindings : ValueBindings} {parameter : String}

/-- Whether a value is kept or put in by a replacement of parameters. -/
theorem mem_substitute {value : Value} (original : Value)
    (replaced : value = original.substitute bindings) :
    (value = original ∧ original.isBoundBy bindings = false) ∨
      ∃ name, bindings.find? name = some value := by
  cases original with
  | reference name =>
      cases found : bindings.find? name with
      | none =>
          refine .inl ⟨by simp [replaced, Value.substitute, found], ?_⟩
          simp [Value.isBoundBy, Value.reference?, Table.contains, found]
      | some bound => exact .inr ⟨name, by simp [replaced, Value.substitute, found]⟩
  | _ => exact .inl ⟨replaced, rfl⟩

mutual
/-- The values after parameters were replaced are the values with these replaced. -/
theorem values_substitute : (reference : Reference) →
    (reference.substitute bindings).values = reference.values.map (·.substitute bindings)
  | ⟨_, arguments, typeArguments, _, _⟩ => by
      simp only [substitute, values, List.map_append, List.map_map,
        typeArgumentValues_substitute typeArguments]
      rfl

theorem typeArgumentValues_substitute : (arguments : List TypeArgument) →
    typeArgumentValues (substituteTypeArguments bindings arguments) =
      (typeArgumentValues arguments).map (·.substitute bindings)
  | [] => by simp only [substituteTypeArguments, typeArgumentValues, List.map_nil]
  | ⟨_, .definition reference, _⟩ :: rest => by
      simp only [substituteTypeArguments, typeArgumentValues, List.map_append,
        values_substitute reference, typeArgumentValues_substitute rest]
  | ⟨_, .parameter _, _⟩ :: rest => by
      simp only [substituteTypeArguments, typeArgumentValues, typeArgumentValues_substitute rest]
end

mutual
/-- A reference uses parameters that one of its values refers to. -/
theorem uses_eq_any : (reference : Reference) →
    reference.uses bindings = reference.values.any (·.isBoundBy bindings)
  | ⟨_, arguments, typeArguments, _, _⟩ => by
      simp only [uses, values, List.any_append, List.any_map, typeArgumentsUse_eq_any typeArguments]
      rfl

theorem typeArgumentsUse_eq_any : (arguments : List TypeArgument) →
    typeArgumentsUse bindings arguments =
      (typeArgumentValues arguments).any (·.isBoundBy bindings)
  | [] => by simp only [typeArgumentsUse, typeArgumentValues, List.any_nil]
  | ⟨_, .definition reference, _⟩ :: rest => by
      simp only [typeArgumentsUse, typeArgumentValues, List.any_append, uses_eq_any reference,
        typeArgumentsUse_eq_any rest]
  | ⟨_, .parameter _, _⟩ :: rest => by
      simp only [typeArgumentsUse, typeArgumentValues, typeArgumentsUse_eq_any rest]
end

variable {context : Context} {types : TypeBindings}

mutual
/-- Definitions that are put in the place of type parameters bring no values. -/
theorem values_instantiate : (reference : Reference) →
    (reference.instantiate context types).values = reference.values
  | ⟨_, _, typeArguments, _, _⟩ => by
      simp only [instantiate, values, typeArgumentValues_instantiate typeArguments]

theorem typeArgumentValues_instantiate : (arguments : List TypeArgument) →
    typeArgumentValues (instantiateTypeArguments context types arguments) =
      typeArgumentValues arguments
  | [] => by simp only [instantiateTypeArguments]
  | ⟨_, .definition reference, _⟩ :: rest => by
      simp only [instantiateTypeArguments, typeArgumentValues, values_instantiate reference,
        typeArgumentValues_instantiate rest]
  | ⟨_, .parameter parameter, _⟩ :: rest => by
      simp only [instantiateTypeArguments, typeArgumentValues]
      unfold boundValue
      split <;> simp only [typeArgumentValues, values, ofName, List.map_nil, List.nil_append,
        typeArgumentValues_instantiate rest]
end

end Reference

namespace Definition

variable {definition : Definition} {name parameter : String}

/-- What a copy uses was put in, and is a parameter of it, or is a parameter that the original
uses and that was not replaced. -/
theorem uses_of_substitute {bindings : ValueBindings}
    (uses : (definition.substitute name bindings).Uses parameter) :
    (definition.substitute name bindings).hasParameter parameter = true ∨
      definition.Uses parameter ∧ bindings.contains parameter = false := by
  obtain ⟨component, member, among⟩ := uses
  obtain ⟨original, originalMember, rfl⟩ := List.mem_map.mp member
  unfold Component.substitute at among
  split at among
  · rename_i reference isDefinition
    have originalValues : original.values = reference.values := by
      simp [Component.values, isDefinition]
    split at among
    · change _ ∈ (reference.substitute bindings).clearResolution.values at among
      rw [Reference.values_clearResolution, Reference.values_substitute] at among
      obtain ⟨value, valueMember, replaced⟩ := List.mem_map.mp among
      rcases Reference.mem_substitute value replaced.symm with ⟨rfl, kept⟩ | ⟨bound, found⟩
      · exact .inr ⟨⟨original, originalMember, originalValues ▸ valueMember⟩, kept⟩
      · refine .inl (List.any_eq_true.mpr ⟨⟨parameter, .generated⟩, ?_, beq_self_eq_true _⟩)
        refine List.mem_map.mpr ⟨parameter, (mem_appendNew _ _).mpr (.inr ?_), rfl⟩
        exact List.mem_filterMap.mpr ⟨_, Table.mem_values_of_find? found, rfl⟩
    · rename_i unused
      refine .inr ⟨⟨original, originalMember, among⟩, ?_⟩
      rw [originalValues] at among
      by_contra bound
      refine unused ((Reference.uses_eq_any reference).trans (List.any_eq_true.mpr ⟨_, among, ?_⟩))
      simpa [Value.isBoundBy, Value.reference?] using bound
  · exact .inr ⟨⟨original, originalMember, among⟩, by
      rename_i absent
      simp [Component.values, absent] at among⟩

theorem contains_foldlM {reference : Reference} {allowReferences : Bool}
    (parameters : List FormalParameter) {start bindings : ValueBindings}
    (all : parameters.foldlM (fun bindings parameter => do
      let argument ← reference.arguments.find? (·.name == some parameter.name)
      if argument.value.isLiteral || allowReferences then
        return bindings.insert parameter.name argument.value
      else
        none) start = some bindings)
    (bound : start.contains parameter = true ∨ ∃ formal ∈ parameters, formal.name = parameter) :
    bindings.contains parameter = true := by
  induction parameters generalizing start with
  | nil =>
      cases all
      exact bound.elim id fun ⟨_, member, _⟩ => nomatch member
  | cons first rest induction =>
      rw [List.foldlM_cons] at all
      obtain ⟨next, step, all⟩ := Option.bind_eq_some_iff.mp all
      refine induction all ?_
      obtain ⟨argument, -, step⟩ := Option.bind_eq_some_iff.mp step
      split at step
      · cases step
        rcases bound with old | ⟨formal, member, rfl⟩
        · refine .inl ?_
          unfold Table.contains at old ⊢
          rw [Table.find?_insert]
          split
          · rfl
          · exact old
        · rcases List.mem_cons.mp member with rfl | among
          · refine .inl ?_
            unfold Table.contains
            rw [Table.find?_insert, if_pos rfl]
            rfl
          · exact .inr ⟨formal, among, rfl⟩
      · exact nomatch step

/-- A copy has values for all parameters of the original. -/
theorem contains_of_bindings? {reference : Reference} {allowReferences : Bool}
    {bindings : ValueBindings} (asked : definition.bindings? reference allowReferences = some bindings)
    (declared : definition.hasParameter parameter = true) : bindings.contains parameter = true := by
  unfold bindings? at asked
  split at asked
  · exact nomatch asked
  · obtain ⟨formal, member, named⟩ := List.any_eq_true.mp declared
    exact contains_foldlM definition.parameters asked
      (.inr ⟨formal, member, eq_of_beq named⟩)

/-- What an instance uses, the generic definition does. -/
theorem uses_of_bare {context : Context} {request : InstanceRequest}
    (uses : (request.bare context name).Uses parameter) :
    (context.definition request.generic).Uses parameter := by
  obtain ⟨component, member, among⟩ := uses
  obtain ⟨original, originalMember, rfl⟩ := List.mem_map.mp member
  refine ⟨original, originalMember, ?_⟩
  unfold Component.instantiate at among
  split at among
  · split at among
    · cases among
    · exact among
    · exact among
  · split at among
    · rename_i reference isDefinition
      split at among
      · change _ ∈ (reference.instantiate _ _).clearResolution.values at among
        rw [Reference.values_clearResolution, Reference.values_instantiate] at among
        simpa [Component.values, isDefinition] using among
      · exact among
    · exact among

end Definition

/-! ## Parameters of parents -/

namespace Context

variable {context before after : Context} {definition inherited : Definition}
  {strict : Prop} {ids : List DefinitionId} {parameter : String}

/-- The parameter belongs to the definition, or to one that it extends, at any distance. -/
inductive Declares (context : Context) (parameter : String) : Definition → Prop
  | own {definition : Definition} : definition.hasParameter parameter = true →
      Declares context parameter definition
  | inherited {definition : Definition} {reference : Reference} {id : DefinitionId} :
      reference ∈ definition.parents → reference.resolvedId? = some id → context.Loaded id →
      Declares context parameter (context.definition id) → Declares context parameter definition

namespace Declares

theorem lasts (kept : KeepsLoaded before after) (declares : before.Declares parameter definition) :
    after.Declares parameter definition := by
  induction declares with
  | own declared => exact .own declared
  | inherited member resolved loaded _ induction =>
      exact .inherited member resolved (kept.loaded loaded) (kept.definition _ loaded ▸ induction)

/-- The parents may stay while the parameters change. -/
theorem change {changed : Definition} (declares : context.Declares parameter definition)
    (parents : definition.parents ⊆ changed.parents)
    (own : definition.hasParameter parameter = true → changed.hasParameter parameter = true) :
    context.Declares parameter changed := by
  cases declares with
  | own declared => exact .own (own declared)
  | inherited member resolved loaded declares =>
      exact .inherited (parents member) resolved loaded declares

theorem of_no_parents (none : definition.parents = [])
    (declares : context.Declares parameter definition) :
    definition.hasParameter parameter = true := by
  cases declares with
  | own declared => exact declared
  | inherited member =>
      rw [none] at member
      exact nomatch member

end Declares

theorem HandsOn.components (handsOn : context.HandsOn ids inherited) :
    ∀ component ∈ inherited.components, ∃ id ∈ ids,
      component ∈ (context.definition id).components := by
  induction handsOn with
  | first => exact fun component handed => ⟨_, List.mem_singleton_self _, handed⟩
  | next _ _ _ induction =>
      intro component handed
      rcases List.mem_append.mp handed with combined | own
      · obtain ⟨id, member, among⟩ := induction component (List.mem_filter.mp combined).1
        exact ⟨id, List.mem_append_left _ member, among⟩
      · exact ⟨_, List.mem_append_right _ (List.mem_singleton_self _), own⟩

/-- The values of the sub-components refer to parameters of the definition or of those that it
extends, before it takes anything over to parameters of its own. -/
structure IsScoped (context : Context) (definition : Definition) : Prop where
  declares : ∀ parameter, definition.Uses parameter → context.Declares parameter definition
  unmerged : definition.decorations.extendsMerged = false → definition.UsesOwn

theorem IsScoped.of_usesOwn (own : definition.UsesOwn) : context.IsScoped definition :=
  ⟨fun parameter uses => .own (own parameter uses), fun _ => own⟩

theorem IsScoped.change {original changed : Definition}
    (all : ∀ id, context.IsScoped (context.definition id))
    (change : Definition.Change strict context original changed) (holds : context.IsScoped original) :
    context.IsScoped changed := by
  cases change with
  | edited edit =>
      refine ⟨fun parameter uses => ?_, fun unmerged parameter uses => ?_⟩
      · rcases edit.uses uses with old | declared
        · exact (holds.declares parameter old).change (edit.parents ▸ List.Subset.refl _)
            edit.hasParameter
        · exact .own declared
      · rcases edit.uses uses with old | declared
        · exact edit.hasParameter
            (holds.unmerged (edit.keeps.extendsMerged.symm.trans unmerged) parameter old)
        · exact declared
  | conforming =>
      exact ⟨fun parameter uses =>
        (holds.declares parameter uses).change (List.Subset.refl _) id, holds.unmerged⟩
  | @resolved components related =>
      have used : ∀ parameter, { original with components }.Uses parameter →
          original.Uses parameter := by
        rintro parameter ⟨component, member, among⟩
        obtain ⟨before, beforeMember, form, decoration, rfl, values⟩ :=
          exists_left_of_forall₂ related component member
        refine ⟨before, beforeMember, ?_⟩
        cases form with
        | none => exact nomatch among
        | some form =>
            obtain ⟨reference, isDefinition, valueMember⟩ := values form rfl _ among
            simpa [Component.values, isDefinition] using valueMember
      exact ⟨fun parameter uses =>
          (holds.declares parameter (used parameter uses)).change (List.Subset.refl _) id,
        fun unmerged parameter uses => holds.unmerged unmerged parameter (used parameter uses)⟩
  | extended parents unmerged =>
      exact .of_usesOwn fun parameter uses => holds.unmerged unmerged parameter uses
  | @merged parents ids inherited unmerged parented handsOn _ =>
      refine ⟨?_, fun absurd => nomatch absurd⟩
      rintro parameter ⟨component, member, used⟩
      rcases List.mem_append.mp member with handed | own
      · obtain ⟨id, listed, handed⟩ := handsOn.components component (List.mem_filter.mp handed).1
        obtain ⟨reference, parent, resolves⟩ := parented.designated id listed
        exact .inherited parent resolves (handsOn.loaded id listed)
          ((all id).declares parameter ⟨_, handed, used⟩)
      · exact .own (holds.unmerged unmerged parameter ⟨component, own, used⟩)
  | marked =>
      exact ⟨fun parameter uses =>
        (holds.declares parameter uses).change (List.Subset.refl _) id, fun absurd => nomatch absurd⟩

theorem IsScoped.copy {name : String} {reference : Reference} {allowReferences : Bool}
    {bindings : ValueBindings} (asked : definition.bindings? reference allowReferences = some bindings)
    (holds : context.IsScoped definition) :
    context.IsScoped (definition.substitute name bindings) := by
  have unbound : ∀ parameter, bindings.contains parameter = false →
      ¬definition.hasParameter parameter = true := fun parameter free declared =>
    nomatch free.symm.trans (Definition.contains_of_bindings? asked declared)
  refine ⟨fun parameter uses => ?_, fun unmerged parameter uses => ?_⟩
  · rcases Definition.uses_of_substitute uses with declared | ⟨old, free⟩
    · exact .own declared
    · exact (holds.declares parameter old).change (List.Subset.refl _)
        fun declared => absurd declared (unbound parameter free)
  · rcases Definition.uses_of_substitute uses with declared | ⟨old, free⟩
    · exact declared
    · exact absurd (holds.unmerged unmerged parameter old) (unbound parameter free)

theorem IsScoped.instantiate {request : InstanceRequest} (name : String)
    (holds : context.IsScoped (context.definition request.generic)) :
    context.IsScoped (request.bare context name) :=
  ⟨fun parameter uses => (holds.declares parameter (Definition.uses_of_bare uses)).change
      (List.Subset.refl _) id,
    fun unmerged parameter uses => holds.unmerged unmerged parameter (Definition.uses_of_bare uses)⟩

end Context

/-- Loading keeps to the parameters in scope, if what is parsed does. -/
theorem FrontEnd.maintains_isScoped {frontEnd : FrontEnd} {strict : Prop}
    (parses : ∀ definition, frontEnd.Parses definition → definition.UsesOwn) :
    frontEnd.Maintains strict Context.IsScoped where
  lasts _ _ _ kept holds :=
    ⟨fun parameter uses => (holds.declares parameter uses).lasts kept, holds.unmerged⟩
  default _ := .of_usesOwn fun parameter uses =>
    absurd uses (Definition.not_uses_of_nil rfl parameter)
  parses _ definition parsed := .of_usesOwn (parses definition parsed)
  changes _ _ _ all change holds := holds.change all change
  copies _ _ _ _ _ _ asked holds := holds.copy asked
  instances _ _ name all := (all _).instantiate name

/-- The last stages refuse attributes that refer to other parameters. -/
theorem Context.ClosedOn.refersOwn {frontEnd : FrontEnd} {strict : Prop} {origin middle before after : Context}
    {name : String} {id : DefinitionId} (harmless : frontEnd.registry.IsHarmless)
    (closed : ClosedOn frontEnd strict origin name id middle before after)
    (silent : after.log.errors = []) : (after.definition id).RefersOwn := by
  rw [closed.definition]
  have silentBefore := closed.silent silent
  obtain ⟨load, ran⟩ := closed.ran
  obtain ⟨first, ranFirst, ran⟩ := Stage.ran_append (Stage.afterParents.take 9) ran
  obtain ⟨settled, ranAttributes, ran⟩ := Stage.ran_cons ran
  have ranLast := Stage.ran_singleton ran
  have making := (Stage.edited_of_runOthers harmless (by decide) closed.making ranFirst).1
  obtain ⟨makingSettled, -, -, typed⟩ := (agree_settleAttributes making).of_ok ranAttributes
  obtain ⟨-, edited, -⟩ :=
    (AnnotationRegistry.agree_processStored harmless .afterChecking makingSettled).of_ok ranLast
  have silentSettled := List.prefix_nil.mp (silentBefore ▸ edited.reports.errors)
  refine Definition.RefersOwn.edits (fun parameter refers => ?_) edited.edits
  obtain ⟨declared, member, isReference⟩ := refers
  exact (typed silentSettled declared member).isOwned parameter isReference

/-! ## Compilations -/

namespace FrontEnd

/-- Where a compilation succeeds, attributes refer to parameters of their definition. So do the
values of sub-components, but for what is inherited: this may refer to parameters of the
definitions that are extended. -/
theorem refers_in_scope (frontEnd : FrontEnd) (options : Options) (definitions : List Definition)
    (roots : List String) (predefined : frontEnd.registry = .predefined) {compiled : Compiled}
    (succeeds : (frontEnd.compile (.ofDefinitions options definitions) roots).outcome =
      .ok compiled) :
    (∀ id, compiled.context.Loaded id → (compiled.context.definition id).RefersOwn) ∧
      ((∀ definition ∈ definitions, definition.UsesOwn) →
        (∀ definition, frontEnd.Parses definition → definition.UsesOwn) →
        ∀ id, compiled.context.Loaded id →
          (∀ parameter, (compiled.context.definition id).Uses parameter →
            compiled.context.Declares parameter (compiled.context.definition id)) ∧
          ((compiled.context.definition id).parents = [] →
            (compiled.context.definition id).UsesOwn)) := by
  have harmless : frontEnd.registry.IsHarmless :=
    predefined ▸ AnnotationRegistry.isHarmless_predefined
  obtain ⟨silent, path, closedOn⟩ := closedOn_of_compile harmless
    (fun never : False => never.elim) False.elim succeeds
  refine ⟨fun id loaded => ?_, fun own parses id _ => ?_⟩
  · obtain ⟨name, middle, before, closed⟩ := closedOn id loaded
    exact closed.refersOwn harmless silent
  · have holds := (maintains_isScoped parses).ofDefinitions
      (fun definition member => .of_usesOwn (own definition member)) path silent id
    exact ⟨holds.declares, fun none parameter uses =>
      (holds.declares parameter uses).of_no_parents none⟩

/-- A composite that gives its parameter on, and one that extends it. -/
def handingOn : List Definition :=
  [ (Definition.ofKind "a.Q" .primitive).ensureParameter "size",
    { (Definition.ofKind "a.B" .composite).ensureParameter "x" with
      components :=
        [⟨"c", some ⟨"a.Q", [⟨none, .reference "x", .generated⟩], [], .generated, none⟩, none,
          .generated, .none, none, false⟩] },
    { (Definition.ofKind "a.Top" .composite).ensureParameter "p" with
      parents := [⟨"a.B", [⟨none, .reference "p", .generated⟩], [], .generated, none⟩] } ]

/-- What the composite hands on refers to the parameter that its argument refers to. -/
theorem handed_on_in_scope :
    ∃ compiled, (registeredOnly.compile (.ofDefinitions .default handingOn) ["a.Top"]).outcome =
        .ok compiled ∧
      compiled.context.Loaded 2 ∧ (compiled.context.definition 2).Uses "p" ∧
      compiled.context.Declares "p" (compiled.context.definition 2) ∧
      (compiled.context.definition 2).RefersOwn := by
  have succeeds : (registeredOnly.compile (.ofDefinitions .default handingOn)
      ["a.Top"]).outcome.toOption.any (fun compiled =>
        compiled.context.cache.find? "a.Top" = some 2 ∧
          (compiled.context.definition 2).Uses "p") = true := by
    decide +kernel
  cases outcome : (registeredOnly.compile (.ofDefinitions .default handingOn) ["a.Top"]).outcome with
  | error diagnostics =>
      rw [outcome] at succeeds
      exact nomatch succeeds
  | ok compiled =>
      rw [outcome] at succeeds
      obtain ⟨found, uses⟩ := of_decide_eq_true succeeds
      have loaded : compiled.context.Loaded 2 := ⟨"a.Top", found⟩
      have refers := refers_in_scope registeredOnly .default handingOn ["a.Top"] rfl outcome
      have declares := refers.2 (by decide) (fun _ ⟨_, _, _, _, isParser, _⟩ => nomatch isParser)
      exact ⟨compiled, rfl, loaded, uses, (declares 2 loaded).1 "p" uses, refers.1 2 loaded⟩

/-- A type argument with a value argument, which refers to a parameter that there is not. -/
def hoisting : List Definition :=
  [ (Definition.ofKind "a.Q" .primitive).ensureParameter "size",
    { Definition.ofKind "a.G" .composite with
      typeParameters := [⟨"T", none, .generated⟩]
      components := [⟨"c", none, some "T", .generated, .none, none, false⟩] },
    { Definition.ofKind "a.Top" .composite with
      components :=
        [⟨"g", some ⟨"a.G", [], [⟨some "T", .definition ⟨"a.Q", [⟨none, .reference "x", .generated⟩],
          [], .generated, none⟩, .generated⟩], .generated, none⟩, none, .generated, .none, none,
          false⟩] } ]

/-- The value becomes an argument for a parameter of the instance, and nothing is reported. -/
theorem hoisted_out_of_scope :
    ∃ compiled, (registeredOnly.compile (.ofDefinitions .default hoisting) ["a.Top"]).outcome =
        .ok compiled ∧
      compiled.context.Loaded 2 ∧ (compiled.context.definition 2).Uses "x" ∧
      (compiled.context.definition 2).parameters = [] := by
  have succeeds : (registeredOnly.compile (.ofDefinitions .default hoisting)
      ["a.Top"]).outcome.toOption.any (fun compiled =>
        compiled.context.cache.find? "a.Top" = some 2 ∧
          (compiled.context.definition 2).Uses "x" ∧
            (compiled.context.definition 2).parameters.isEmpty = true) = true := by
    decide +kernel
  cases outcome : (registeredOnly.compile (.ofDefinitions .default hoisting) ["a.Top"]).outcome with
  | error diagnostics =>
      rw [outcome] at succeeds
      exact nomatch succeeds
  | ok compiled =>
      rw [outcome] at succeeds
      obtain ⟨found, uses, none⟩ := of_decide_eq_true succeeds
      exact ⟨compiled, rfl, ⟨"a.Top", found⟩, uses, List.isEmpty_iff.mp none⟩

end FrontEnd

end Adl
