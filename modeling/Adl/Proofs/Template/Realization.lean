import Adl.Proofs.Template.Making

namespace Adl

open Step Context

/-! What an instance is when its sub-components are resolved. Placeholders are filled with what is
bound to their type parameters, and what a type parameter is passed on to was resolved anew. -/

/-- The sub-component is an instance of something that is bound, or of what is made of it. -/
def Component.PassesOn (bindings : TypeBindings) (component : Component) : Prop :=
  component.typeParameter = none ∧ component.definition.any (·.usesTypes bindings) = true

instance (bindings : TypeBindings) (component : Component) :
    Decidable (component.PassesOn bindings) :=
  inferInstanceAs (Decidable (_ ∧ _))

/-- A sub-component that passes nothing on is the same in an instance. -/
theorem Component.instantiate_of_not_passesOn {context : Context} {bindings : TypeBindings}
    {component : Component} (noPlaceholder : component.typeParameter = none)
    (unused : ¬component.PassesOn bindings) : component.instantiate context bindings = component := by
  refine Component.instantiate_of_not_uses noPlaceholder fun reference isDefinition => ?_
  rw [Component.PassesOn, isDefinition, Option.any_some] at unused
  exact Bool.eq_false_iff.mpr fun uses => unused ⟨noPlaceholder, uses⟩

theorem Component.isSome_resolved {component : Component}
    (designates : component.resolvedId?.isSome = true) : component.resolved.isSome = true := by
  obtain ⟨part, isPart⟩ := Option.isSome_iff_exists.mp designates
  obtain ⟨decoration, isDecorated, -⟩ := Option.bind_eq_some_iff.mp isPart
  exact Option.isSome_iff_exists.mpr ⟨decoration, isDecorated⟩

/-- A part offers the interfaces of another, and is not annotated otherwise, singletons apart. -/
structure Definition.StandsFor (changed original : Definition) : Prop where
  interfaces : changed.interfaces = original.interfaces
  typed : ∀ item ∈ changed.annotations.typed,
    item ∈ original.annotations.typed ∨ item = .singleton

instance (changed original : Definition) : Decidable (changed.StandsFor original) :=
  decidable_of_iff (changed.interfaces = original.interfaces ∧
      ∀ item ∈ changed.annotations.typed, item ∈ original.annotations.typed ∨ item = .singleton)
    ⟨fun ⟨interfaces, typed⟩ => ⟨interfaces, typed⟩, fun stands => ⟨stands.interfaces, stands.typed⟩⟩

theorem Definition.StandsFor.refl (definition : Definition) : definition.StandsFor definition :=
  ⟨rfl, fun _ => .inl⟩

namespace InstanceRequest

variable {request : InstanceRequest} {known context later : Context} {made changed : Definition}
  {name : String} {id : DefinitionId}

/-- What a sub-component of an instance designates, in the place of one of the generic definition:
what is bound to the type parameter, or what stands for the part there. -/
structure Occupies (request : InstanceRequest) (known context : Context)
    (original component : Component) : Prop where
  name : component.name = original.name
  bound : ∀ parameter, original.typeParameter = some parameter →
    ∃ value, request.bindings.find? parameter = some (.definition value) ∧
      component.resolvedId? = some value
  unbound : original.typeParameter = none → ∀ second, component.resolvedId? = some second →
    ∃ first, original.resolvedId? = some first ∧
      (context.definition second).StandsFor (known.definition first)

/-- A definition is the instance that was asked for. -/
structure Realized (request : InstanceRequest) (known context : Context) (made : Definition) :
    Prop where
  upholds : made.Upholds (known.definition request.generic)
  typeParameters : made.typeParameters = []
  components : List.Forall₂ (request.Occupies known context)
    (known.definition request.generic).components made.components

/-- What is made of the sub-components of the generic definition that pass something on stands for
what they designate there. -/
def PartsStand (request : InstanceRequest) (known context : Context) (id : DefinitionId) : Prop :=
  ∀ index original, (known.definition request.generic).components[index]? = some original →
    original.PassesOn request.bindings → ∀ first second, original.resolvedId? = some first →
      (context.definition id).part? index = some second →
        (context.definition second).StandsFor (known.definition first)

instance (request : InstanceRequest) (known context : Context) (id : DefinitionId) :
    Decidable (request.PartsStand known context id) :=
  decidable_of_iff (∀ index < (known.definition request.generic).components.length,
      ∀ original ∈ (known.definition request.generic).components[index]?,
        original.PassesOn request.bindings → ∀ first ∈ original.resolvedId?,
          ∀ second ∈ (context.definition id).part? index,
            (context.definition second).StandsFor (known.definition first))
    ⟨fun stand index original found passes first second isFirst isSecond =>
      stand index (List.getElem?_eq_some_iff.mp found).1 original found passes first isFirst second
        isSecond,
    fun stand index _ original found passes first isFirst second isSecond =>
      stand index original found passes first second isFirst isSecond⟩

/-- Every placeholder of the generic definition is filled. -/
def FillsPlaceholders (request : InstanceRequest) (known : Context) : Prop :=
  ∀ component ∈ (known.definition request.generic).components, ∀ parameter,
    component.typeParameter = some parameter →
      ∃ value, request.bindings.find? parameter = some (.definition value)

theorem FillsPlaceholders.typeParameter_instantiate (fills : request.FillsPlaceholders known)
    {component : Component} (member : component ∈ (known.definition request.generic).components) :
    (component.instantiate known request.bindings).typeParameter = none := by
  cases isPlaceholder : component.typeParameter with
  | some parameter =>
      obtain ⟨value, bound⟩ := fills component member parameter isPlaceholder
      rw [Component.instantiate_of_bound isPlaceholder bound]
      rfl
  | none =>
      by_cases passes : component.PassesOn request.bindings
      · obtain ⟨-, uses⟩ := passes
        obtain ⟨reference, isDefinition, uses⟩ := (Option.any_eq_true ..).mp uses
        rw [Component.instantiate_of_uses isPlaceholder isDefinition uses]
        exact isPlaceholder
      · rw [Component.instantiate_of_not_passesOn isPlaceholder passes, isPlaceholder]

/-- No placeholder is left in the instance. -/
theorem FillsPlaceholders.filled (fills : request.FillsPlaceholders known)
    (keeps : made.Keeps (request.bare known name)) :
    ∀ component ∈ made.components, component.typeParameter = none := by
  intro component member
  obtain ⟨other, among, outline, -⟩ := exists_right_of_forall₂ keeps.components component member
  obtain ⟨original, memberOriginal, rfl⟩ := List.mem_map.mp among
  exact (congrArg (·.2.1) outline).trans (fills.typeParameter_instantiate memberOriginal)

/-- Where nothing is passed on, all sub-components of the instance are resolved already. -/
theorem FillsPlaceholders.complete (fills : request.FillsPlaceholders known)
    (decorated : ∀ component ∈ (known.definition request.generic).components,
      component.definition.isSome = true → component.resolvedId?.isSome = true)
    (none : ∀ component ∈ (known.definition request.generic).components,
      ¬component.PassesOn request.bindings)
    (keeps : made.Keeps (request.bare known name)) :
    ∀ component ∈ made.components, component.definition.isSome = true →
      component.resolved.isSome = true := by
  intro component member isDefinition
  obtain ⟨other, among, -, link⟩ := exists_right_of_forall₂ keeps.components component member
  obtain ⟨original, memberOriginal, rfl⟩ := List.mem_map.mp among
  have resolved : component.resolved = (original.instantiate known request.bindings).resolved :=
    congrArg (·.1) link
  have named : component.definition.isSome =
      (original.instantiate known request.bindings).definition.isSome := congrArg (·.2) link
  rw [resolved]
  rw [named] at isDefinition
  cases isPlaceholder : original.typeParameter with
  | some parameter =>
      obtain ⟨value, bound⟩ := fills original memberOriginal parameter isPlaceholder
      rw [Component.instantiate_of_bound isPlaceholder bound]
      rfl
  | none =>
      rw [Component.instantiate_of_not_passesOn isPlaceholder (none original memberOriginal)]
        at isDefinition ⊢
      exact Component.isSome_resolved (decorated original memberOriginal isDefinition)

theorem namesApart_bare (apart : (known.definition request.generic).NamesApart) (name : String) :
    (request.bare known name).NamesApart := by
  change (List.map _ (List.map _ _)).Nodup
  rw [List.map_map, List.map_congr_left fun component _ =>
    (show _ = component.name from Component.name_instantiate)]
  exact apart

/-- A bare instance designates what is bound, and parts of the generic definition. -/
theorem loaded_of_part_bare (fills : request.FillsPlaceholders known) (closed : request.IsClosed known)
    (loaded : ∀ component ∈ (known.definition request.generic).components, ∀ part,
      component.resolvedId? = some part → known.Loaded part) {index : Nat} {part : DefinitionId}
    (isPart : (request.bare known name).part? index = some part) : known.Loaded part := by
  obtain ⟨component, found, designates⟩ := Option.bind_eq_some_iff.mp isPart
  obtain ⟨original, member, rfl⟩ := List.mem_map.mp (List.mem_of_getElem? found)
  cases isPlaceholder : original.typeParameter with
  | some parameter =>
      obtain ⟨value, bound⟩ := fills original member parameter isPlaceholder
      rw [Component.instantiate_of_bound isPlaceholder bound] at designates
      cases designates
      obtain ⟨_, equal, isLoaded⟩ := closed.bound _ (Table.mem_values_of_find? bound)
      cases equal
      exact isLoaded
  | none =>
      by_cases passes : original.PassesOn request.bindings
      · obtain ⟨reference, isDefinition, uses⟩ := (Option.any_eq_true ..).mp passes.2
        rw [Component.instantiate_of_uses isPlaceholder isDefinition uses] at designates
        cases designates
      · rw [Component.instantiate_of_not_passesOn isPlaceholder passes] at designates
        exact loaded original member part designates

/-- What a sub-component of the generic definition became in the instance is in its place. -/
theorem occupies_of_follows {original resolved : Component}
    (fills : ∀ parameter, original.typeParameter = some parameter →
      ∃ value, request.bindings.find? parameter = some (.definition value))
    (decorated : original.definition.isSome = true → original.resolvedId?.isSome = true)
    (same : ∀ part, original.resolvedId? = some part →
      context.definition part = known.definition part)
    (stands : original.PassesOn request.bindings → ∀ first second,
      original.resolvedId? = some first → resolved.resolvedId? = some second →
        (context.definition second).StandsFor (known.definition first))
    (follows : SubComponents.Follows True id name (original.instantiate known request.bindings)
      resolved context) : request.Occupies known context original resolved where
  name := follows.name.trans Component.name_instantiate
  bound parameter isPlaceholder := by
    obtain ⟨value, bound⟩ := fills parameter isPlaceholder
    rw [Component.instantiate_of_bound isPlaceholder bound] at follows
    have kept := follows.kept trivial fun _ => rfl
    exact ⟨value, bound, by rw [Component.resolvedId?, kept]; rfl⟩
  unbound noPlaceholder second designates := by
    by_cases passes : original.PassesOn request.bindings
    · obtain ⟨reference, isDefinition, -⟩ := (Option.any_eq_true ..).mp passes.2
      obtain ⟨first, isFirst⟩ :=
        Option.isSome_iff_exists.mp (decorated (Option.isSome_iff_exists.mpr ⟨reference, isDefinition⟩))
      exact ⟨first, isFirst, stands passes first second isFirst designates⟩
    · rw [Component.instantiate_of_not_passesOn noPlaceholder passes] at follows
      have kept := follows.kept trivial fun isDefinition =>
        Component.isSome_resolved (decorated isDefinition)
      have isPart : original.resolvedId? = some second := by
        rw [Component.resolvedId?, ← kept]
        exact designates
      exact ⟨second, isPart, same second isPart ▸ .refl _⟩

/-- An instance whose sub-components were resolved is the one that was asked for. -/
theorem realized_of_completed (fills : request.FillsPlaceholders known)
    (decorated : ∀ component ∈ (known.definition request.generic).components,
      component.definition.isSome = true → component.resolvedId?.isSome = true)
    (same : ∀ component ∈ (known.definition request.generic).components, ∀ part,
      component.resolvedId? = some part → context.definition part = known.definition part)
    (stand : request.PartsStand known context id)
    (completed : SubComponents.Completed True (request.bare known name) id context)
    (upholds : (context.definition id).Upholds (known.definition request.generic))
    (closed : (context.definition id).typeParameters = []) :
    request.Realized known context (context.definition id) where
  upholds := upholds
  typeParameters := closed
  components := by
    have followed := List.forall₂_map_left_iff.mp
      (show List.Forall₂ _ (List.map _ (known.definition request.generic).components) _ from
        completed.components)
    obtain ⟨length, each⟩ := List.forall₂_iff_get.mp followed
    refine List.forall₂_iff_get.mpr ⟨length, fun index within withinAlso => ?_⟩
    have member := List.get_mem (known.definition request.generic).components ⟨index, within⟩
    refine occupies_of_follows (fills _ member) (decorated _ member) (same _ member) ?_
      (each index within withinAlso)
    intro passes first second isFirst isSecond
    refine stand index _ (List.getElem?_eq_getElem within) passes first second isFirst ?_
    rw [Definition.part?, List.getElem?_eq_getElem withinAlso]
    exact isSecond

namespace Realized

/-- Edits inside of the membrane do not change what it is, while its parts stay as they are. -/
theorem edits (realized : request.Realized known context made) (inside : made.EditsInside changed)
    (parts : ∀ component ∈ made.components, ∀ part, component.resolvedId? = some part →
      later.definition part = context.definition part) : request.Realized known later changed where
  upholds := inside.upholds.trans realized.upholds
  typeParameters := inside.edits.typeParameters.trans realized.typeParameters
  components := by
    refine forall₂_through realized.components
      ((List.forall₂_and_left _ _).mpr ⟨parts, inside.edits.keeps.components.flip⟩) ?_
    rintro original component other occupies ⟨stays, outline, link⟩
    have designates : other.resolvedId? = component.resolvedId? :=
      congrArg (fun link => link.1.bind (·.id)) link
    refine ⟨(congrArg (·.1) outline).trans occupies.name, fun parameter isPlaceholder => ?_,
      fun noPlaceholder second isSecond => ?_⟩
    · rw [designates]
      exact occupies.bound parameter isPlaceholder
    · rw [designates] at isSecond
      rw [stays second isSecond]
      exact occupies.unbound noPlaceholder second isSecond

/-- A part takes the place of one of the generic definition. -/
theorem exists_occupied (realized : request.Realized known context made) {index : Nat}
    {part : DefinitionId} (isPart : made.part? index = some part) :
    ∃ original component, (known.definition request.generic).components[index]? = some original ∧
      request.Occupies known context original component ∧ component.resolvedId? = some part := by
  obtain ⟨component, found, designates⟩ := Option.bind_eq_some_iff.mp isPart
  obtain ⟨within, isComponent⟩ := List.getElem?_eq_some_iff.mp found
  obtain ⟨length, each⟩ := List.forall₂_iff_get.mp realized.components
  have withinAlso : index < (known.definition request.generic).components.length :=
    length.symm ▸ within
  refine ⟨_, component, List.getElem?_eq_getElem withinAlso, ?_, designates⟩
  rw [← isComponent]
  exact each index withinAlso within

/-- Parts of an instance are minded, if those of the generic definition are and what is bound has no
life cycle. -/
theorem partsMatter (realized : request.Realized known context made)
    (minds : AnnotationRegistry.MindsParts known (known.definition request.generic))
    (bound : ∀ component ∈ (known.definition request.generic).components, ∀ parameter value,
      component.typeParameter = some parameter →
      request.bindings.find? parameter = some (.definition value) →
        context.definition value = known.definition value ∧
          (known.definition value).annotations.ArePredefined ∧
          .lifeCycleController ∉ (known.definition value).annotations.typed) :
    AnnotationRegistry.PartsMatter .onSubComponent context made := by
  intro index part isPart item member isDue
  obtain ⟨original, component, found, occupies, designates⟩ := realized.exists_occupied isPart
  cases isPlaceholder : original.typeParameter with
  | some parameter =>
      obtain ⟨value, isBound, isValue⟩ := occupies.bound parameter isPlaceholder
      cases designates.symm.trans isValue
      obtain ⟨same, predefined, noLifeCycle⟩ :=
        bound original (List.mem_of_getElem? found) parameter part isPlaceholder isBound
      rw [same] at member
      rcases AnnotationRegistry.eq_of_onSubComponent (predefined item member) isDue with rfl | rfl
      · exact .inl rfl
      · exact absurd member noLifeCycle
  | none =>
      obtain ⟨first, isFirst, stands⟩ := occupies.unbound isPlaceholder part designates
      have wasPart : (known.definition request.generic).part? index = some first := by
        rw [Definition.part?, found]
        exact isFirst
      rcases stands.typed item member with among | rfl
      · rcases AnnotationRegistry.eq_of_onSubComponent
          (minds.predefined index first wasPart item among) isDue with rfl | rfl
        · exact .inl rfl
        · obtain ⟨flagged, provides⟩ := minds.lifeCycle index first wasPart among
          exact .inr ⟨rfl, realized.upholds.flags index flagged,
            Definition.HasControl.continued realized.upholds.toContinues provides⟩
      · exact .inl rfl

end Realized

end InstanceRequest

end Adl
