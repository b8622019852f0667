import Adl.Proofs.Loading.Closing

namespace Adl

open Step Context

/-! The types of attributes. The first use of a parameter gives it a type, and every attribute that
refers to it later is held against this type. -/

/-! ## Attributes -/

namespace Definition

/-- The attributes of a definition have values of their types. -/
def IsTyped (definition : Definition) (context : Context) : Prop :=
  ∀ declared ∈ definition.attributes, declared.IsTyped definition context

namespace IsTyped

variable {original changed : Definition} {before after : Context}

theorem lasts (types : before.KeepsTypes after) (typed : original.IsTyped before) :
    original.IsTyped after :=
  fun declared member => (typed declared member).lasts types

/-- No edit takes a value away, or a parameter. -/
theorem edit (edit : Edit original changed) (typed : original.IsTyped before) :
    changed.IsTyped before := by
  cases edit with
  | annotated path =>
      match path with
      | .attribute _ =>
          intro declared member
          rcases exists_of_mem_modify member with among | ⟨other, found, rfl⟩
          · exact typed declared among
          · exact typed other (List.mem_of_getElem? found)
      | .definition | .interface _ | .internalInterface _ | .component _ | .binding _ | .source _ =>
          exact typed
  | settled settles =>
      intro declared member
      obtain ⟨other, among, same | ⟨unset, -⟩⟩ := exists_left_of_forall₂ settles declared member
      · exact same ▸ typed other among
      · obtain ⟨value, isValue, -⟩ := typed other among
        exact nomatch unset.symm.trans isValue
  | parameterized name =>
      intro declared member
      obtain ⟨value, isValue, holds⟩ := typed declared member
      refine ⟨value, isValue, ?_⟩
      cases value with
      | reference parameter =>
          refine ⟨?_, holds.2⟩
          exact List.any_append.trans (Bool.or_eq_true_iff.mpr (.inl holds.1))
      | string | number | null => exact holds
  | _ => exact typed

theorem edits (edits : Edits original changed) (typed : original.IsTyped before) :
    changed.IsTyped before := by
  induction edits with
  | refl => exact typed
  | tail _ edit induction => exact induction.edit edit

end IsTyped

end Definition

/-- The last stages leave attributes with values of their types. -/
theorem Context.ClosedOn.isTyped {frontEnd : FrontEnd} {strict : Prop}
    {origin middle before after : Context} {name : String} {id : DefinitionId}
    (harmless : frontEnd.registry.IsHarmless)
    (closed : ClosedOn frontEnd strict origin name id middle before after)
    (silent : after.log.errors = []) : (after.definition id).IsTyped after := by
  rw [closed.definition]
  have silentBefore := closed.silent silent
  obtain ⟨load, ran⟩ := closed.ran
  obtain ⟨first, ranFirst, ran⟩ := Stage.ran_append (Stage.afterParents.take 9) ran
  obtain ⟨settled, ranAttributes, ran⟩ := Stage.ran_cons ran
  have ranLast := Stage.ran_singleton ran
  have making := (Stage.edited_of_runOthers harmless (by decide) closed.making ranFirst).1
  obtain ⟨makingSettled, -, -, typed⟩ := (agree_settleAttributes making).of_ok ranAttributes
  obtain ⟨-, edited, -⟩ :=
    (AnnotationRegistry.agree_processStored harmless .afterChecking makingSettled).of_ok ranLast
  have isTyped : (settled.definition id).IsTyped settled := typed (edited.silent silentBefore)
  exact ((isTyped.edits edited.edits).lasts edited.reports.types).lasts closed.kept.types

/-! ## Compilations -/

namespace FrontEnd

/-- Where a compilation succeeds, attributes have values: literals of their types or parameters of
their definition. A parameter has one type, which is that of all attributes that refer to it. A
definition without parameters has literals only. -/
theorem attributes_typed (frontEnd : FrontEnd) (options : Options) (definitions : List Definition)
    (roots : List String) (predefined : frontEnd.registry = .predefined) {compiled : Compiled}
    (succeeds : (frontEnd.compile (.ofDefinitions options definitions) roots).outcome =
      .ok compiled) (id : DefinitionId) (loaded : compiled.context.Loaded id) :
    (compiled.context.definition id).IsTyped compiled.context ∧
      (∀ first ∈ (compiled.context.definition id).attributes,
        ∀ second ∈ (compiled.context.definition id).attributes, ∀ parameter,
          first.value = some (.reference parameter) → second.value = some (.reference parameter) →
            first.type = second.type) ∧
      ((compiled.context.definition id).parameters = [] →
        ∀ declared ∈ (compiled.context.definition id).attributes,
          ∃ value, declared.value = some value ∧ declared.type.accepts value = true) := by
  have harmless : frontEnd.registry.IsHarmless :=
    predefined ▸ AnnotationRegistry.isHarmless_predefined
  obtain ⟨silent, -, closedOn⟩ := closedOn_of_compile harmless
    (fun never : False => never.elim) False.elim succeeds
  obtain ⟨name, middle, before, closed⟩ := closedOn id loaded
  have typed := closed.isTyped harmless silent
  have recorded : ∀ declared ∈ (compiled.context.definition id).attributes, ∀ parameter,
      declared.value = some (.reference parameter) →
        (compiled.context.definition id).hasParameter parameter = true ∧
          compiled.context.inferredType? (compiled.context.definition id).name parameter =
            some declared.type := by
    intro declared member parameter isReference
    obtain ⟨value, isValue, holds⟩ := typed declared member
    cases isValue.symm.trans isReference
    exact holds
  refine ⟨typed, ?_, fun none declared member => ?_⟩
  · intro first firstMember second secondMember parameter isFirst isSecond
    have same := (recorded first firstMember parameter isFirst).2.symm.trans
      (recorded second secondMember parameter isSecond).2
    exact Option.some.inj same
  · obtain ⟨value, isValue, holds⟩ := typed declared member
    refine ⟨value, isValue, ?_⟩
    cases value with
    | reference parameter =>
        have known := (recorded declared member parameter isValue).1
        rw [Definition.hasParameter, none] at known
        exact absurd known Bool.false_ne_true
    | string | number | null => exact holds

/-- A primitive with a parameter, and a composite that gives it a value. -/
def measured : List Definition :=
  [ { (Definition.ofKind "a.Q" .primitive).ensureParameter "size" with
      attributes :=
        [⟨"n", "int", some (.reference "size"), .generated, .none⟩,
          ⟨"label", "string", none, .generated, .none⟩] },
    { Definition.ofKind "a.Top" .composite with
      components :=
        [⟨"c", some ⟨"a.Q", [⟨none, .number 4, .generated⟩], [], .generated, none⟩, none, .generated,
          .none, none, false⟩] } ]

/-- The primitive has its parameter as an integer, and its copy has literals. -/
theorem measured_typed :
    ∃ compiled, (registeredOnly.compile (.ofDefinitions .default measured) ["a.Top"]).outcome =
        .ok compiled ∧
      compiled.context.inferredType? "a.Q" "size" = some .integer ∧
      (compiled.context.definition 0).IsTyped compiled.context ∧
      (compiled.context.definition 2).name = "a.Q(size=4)" ∧
      ∀ declared ∈ (compiled.context.definition 2).attributes,
        ∃ value, declared.value = some value ∧ declared.type.accepts value = true := by
  have succeeds : (registeredOnly.compile (.ofDefinitions .default measured)
      ["a.Top"]).outcome.toOption.any (fun compiled =>
        compiled.context.cache.find? "a.Q" = some 0 ∧
        compiled.context.cache.find? "a.Q(size=4)" = some 2 ∧
        compiled.context.inferredType? "a.Q" "size" = some .integer ∧
        (compiled.context.definition 2).name = "a.Q(size=4)" ∧
        (compiled.context.definition 2).parameters.length = 0) = true := by
    decide +kernel
  obtain ⟨compiled, outcome, found, foundCopy, recorded, named, none⟩ := exists_ok_of_any succeeds
  have typed := attributes_typed registeredOnly .default measured ["a.Top"] rfl outcome
  exact ⟨compiled, outcome, recorded, (typed 0 ⟨"a.Q", found⟩).1, named,
    (typed 2 ⟨_, foundCopy⟩).2.2 (List.eq_nil_of_length_eq_zero none)⟩

/-- A composite that gives its parameter to a type argument, and to an attribute of another type. -/
def mistyped : List Definition :=
  [ { (Definition.ofKind "a.Q" .primitive).ensureParameter "size" with
      attributes := [⟨"n", "int", some (.reference "size"), .generated, .none⟩] },
    { Definition.ofKind "a.G" .composite with
      typeParameters := [⟨"T", none, .generated⟩]
      components := [⟨"c", none, some "T", .generated, .none, none, false⟩] },
    { (Definition.ofKind "a.Top" .composite).ensureParameter "x" with
      attributes := [⟨"s", "string", some (.reference "x"), .generated, .none⟩]
      components :=
        [⟨"g", some ⟨"a.G", [],
            [⟨some "T", .definition ⟨"a.Q", [⟨none, .reference "x", .generated⟩], [], .generated, none⟩,
              .generated⟩], .generated, none⟩, none, .generated, .none, none, false⟩] } ]

/-- A value that is hoisted out of a type argument is not held against the type of its parameter:
a string is given for an integer. -/
theorem mistyped_accepted :
    ∃ compiled, (registeredOnly.compile (.ofDefinitions .default mistyped) ["a.Top"]).outcome =
        .ok compiled ∧
      compiled.context.cache.find? "a.Top" = some 2 ∧
      ¬∀ component ∈ (compiled.context.definition 2).components, ∀ reference target,
        component.definition = some reference → component.resolvedId? = some target →
        ∀ argument ∈ reference.arguments, ∀ used type, argument.value = .reference used →
          compiled.context.inferredType? (compiled.context.definition target).name
            (argument.name.getD "") = some type →
          compiled.context.inferredType? "a.Top" used = some type := by
  have succeeds : (registeredOnly.compile (.ofDefinitions .default mistyped)
      ["a.Top"]).outcome.toOption.any (fun compiled =>
        compiled.context.cache.find? "a.Top" = some 2 ∧
        compiled.context.inferredType? "a.Top" "x" = some .string ∧
        ∃ component ∈ (compiled.context.definition 2).components,
          ∃ reference ∈ component.definition, ∃ target ∈ component.resolvedId?,
            ∃ argument ∈ reference.arguments, argument.value = .reference "x" ∧
              compiled.context.inferredType? (compiled.context.definition target).name
                (argument.name.getD "") = some .integer) = true := by
    decide +kernel
  obtain ⟨compiled, outcome, found, recorded, component, member, reference, isDefinition, target,
    isTarget, argument, among, isReference, expected⟩ := exists_ok_of_any succeeds
  refine ⟨compiled, outcome, found, fun agrees => ?_⟩
  have same := agrees component member reference target isDefinition isTarget argument among "x"
    .integer isReference expected
  exact nomatch recorded.symm.trans same

end FrontEnd

end Adl
