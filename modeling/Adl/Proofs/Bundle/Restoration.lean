import Adl.Proofs.Bundle.RoundTrip
import Adl.Proofs.Loading.Settling

namespace Adl

open Step Context

/-! Definitions that come from a bundle. What a bundle keeps of a definition is enough to take it
through the stages once more: its annotations are built anew, its sub-components find again what
they designate, and all other stages have nothing left to do. -/

/-! ## Handles -/

namespace Reference

mutual
theorem stored_stored : ∀ reference : Reference, reference.stored.stored = reference.stored
  | ⟨name, arguments, typeArguments, span, resolved⟩ => by
      rw [stored, stored, storedTypeArguments_stored typeArguments, Option.map_map]
      rfl

theorem storedTypeArguments_stored : ∀ typeArguments : List TypeArgument,
    storedTypeArguments (storedTypeArguments typeArguments) = storedTypeArguments typeArguments
  | [] => rfl
  | ⟨name, value, span⟩ :: rest => by
      rw [storedTypeArguments, storedTypeArguments, storedValue_stored value,
        storedTypeArguments_stored rest]

theorem storedValue_stored : ∀ value : TypeArgumentValue,
    storedValue (storedValue value) = storedValue value
  | .definition reference => by rw [storedValue, storedValue, stored_stored reference]
  | .parameter name => rfl
end

end Reference

/-- A sub-component without the handle of what it designates. -/
def Component.withoutHandle (component : Component) : Component :=
  { component with
    definition := component.definition.map Reference.stored
    resolved := component.resolved.map Resolved.stored }

namespace Definition

/-- A definition without the handles of others. Annotations of what controllers are made of are
never built, and left out as well. -/
def withoutHandles (definition : Definition) : Definition :=
  { definition with
    parents := definition.parents.map Reference.stored
    typeParameters := definition.typeParameters.map FormalTypeParameter.stored
    components := definition.components.map Component.withoutHandle
    controllers := definition.controllers.map Controller.withoutTyped }

variable {definition : Definition}

/-- Besides handles, a bundle keeps everything but typed annotations. -/
theorem stored_eq (definition : Definition) :
    definition.stored =
      definition.withoutHandles.mapAnnotations fun _ annotations => annotations.withoutTyped := by
  unfold stored withoutHandles mapAnnotations
  rw [List.map_map]
  rfl

theorem mapAnnotations_mapAnnotations (first second : Target → Annotations → Annotations) :
    (definition.mapAnnotations first).mapAnnotations second =
      definition.mapAnnotations fun target annotations => second target (first target annotations) := by
  simp only [mapAnnotations, List.map_map]
  rfl

theorem Everywhere.withoutHandles {Holds : Target → Annotations → Prop}
    (everywhere : definition.Everywhere Holds) : definition.withoutHandles.Everywhere Holds :=
  { everywhere with components := List.forall_mem_map.mpr everywhere.components }

/-- Annotations that are built again are those that were built before. -/
theorem rebuilt_stored (built : definition.Everywhere Annotations.AreBuilt) :
    definition.stored.mapAnnotations Annotations.rebuilt = definition.withoutHandles := by
  rw [stored_eq, mapAnnotations_mapAnnotations]
  exact (built.withoutHandles.mono fun _ _ built => built.rebuilt_withoutTyped).mapAnnotations_eq

theorem everywhere_stored (built : definition.Everywhere Annotations.AreBuilt) :
    definition.stored.Everywhere fun target annotations =>
      (annotations.nodes = [] → annotations.typed = []) ∧
        (annotations.rebuilt target).AreBuilt target := by
  rw [stored_eq]
  refine Everywhere.mapAnnotations (built.withoutHandles.mono fun target annotations built => ?_)
  exact ⟨fun _ => rfl, built.rebuilt_withoutTyped.symm ▸ built⟩

end Definition

theorem FormalTypeParameter.stored_stored (parameter : FormalTypeParameter) :
    parameter.stored.stored = parameter.stored := by
  have again : (parameter.conformsTo.map Reference.stored).map Reference.stored =
      parameter.conformsTo.map Reference.stored := by
    rw [Option.map_map]
    exact Option.map_congr fun reference _ => reference.stored_stored
  unfold stored
  rw [again]

theorem Controller.withoutTyped_withoutTyped (controller : Controller) :
    controller.withoutTyped.withoutTyped = controller.withoutTyped := by
  unfold withoutTyped
  rw [List.map_map]
  rfl

/-! ## Sub-components -/

namespace Component

variable {after before context : Context} {component : Component}

/-- Without a handle, a decoration is found by its name. -/
theorem resolved_reattached {resolved : Resolved} {place : DefinitionId}
    (decorated : component.resolved = some resolved)
    (isCached : context.cache.find? resolved.name = some place) :
    (component.withoutHandle.reattached context).resolved = some ⟨resolved.name, some place⟩ := by
  have isFound : context.resolved? resolved.stored = some place := isCached
  rw [reattached, withoutHandle, decorated]
  change (context.resolved? resolved.stored).map _ = _
  rw [isFound]
  rfl

theorem resolved_reattached_of_none (undecorated : component.resolved = none) :
    (component.withoutHandle.reattached context).resolved = none := by
  rw [reattached, withoutHandle, undecorated]
  rfl

/-- What a sub-component designates has its name in the cache of another context, where the
definition is the same up to handles. -/
def IsFoundIn (after before : Context) (component : Component) : Prop :=
  component.resolved = none ∧ component.definition = none ∨
    ∃ resolved target place, component.resolved = some resolved ∧ resolved.id = some target ∧
      after.cache.find? resolved.name = some place ∧
      (after.definition place).withoutHandles = (before.definition target).withoutHandles

namespace IsFoundIn

/-- The sub-component takes the decoration over, unless there is none. -/
theorem attached (found : component.IsFoundIn after before) (cache : context.cache = after.cache) :
    (component.withoutHandle.reattached context).resolved.isSome = true ∨
      component.withoutHandle.resolved = none ∧ component.withoutHandle.definition = none := by
  rcases found with ⟨undecorated, unnamed⟩ | ⟨resolved, target, place, decorated, -, isCached, -⟩
  · refine .inr ⟨?_, ?_⟩
    · rw [withoutHandle, undecorated]
      rfl
    · rw [withoutHandle, unnamed]
      rfl
  · rw [resolved_reattached decorated (cache ▸ isCached)]
    exact .inl rfl

theorem withoutHandle_reattached (found : component.IsFoundIn after before)
    (cache : context.cache = after.cache) :
    (component.withoutHandle.reattached context).withoutHandle = component.withoutHandle := by
  have references : (component.definition.map Reference.stored).map Reference.stored =
      component.definition.map Reference.stored := by
    rw [Option.map_map]
    exact Option.map_congr fun reference _ => reference.stored_stored
  have decorations : (component.withoutHandle.reattached context).resolved.map Resolved.stored =
      component.resolved.map Resolved.stored := by
    rcases found with ⟨undecorated, -⟩ | ⟨resolved, target, place, decorated, -, isCached, -⟩
    · rw [resolved_reattached_of_none undecorated, undecorated]
    · rw [resolved_reattached decorated (cache ▸ isCached), decorated]
      rfl
  change ({ component with
    definition := (component.definition.map Reference.stored).map Reference.stored
    resolved := (component.withoutHandle.reattached context).resolved.map Resolved.stored } :
      Component) = _
  rw [references, decorations]
  rfl

/-- What it designates looks the same. -/
theorem restores {reached : Context} (found : component.IsFoundIn after before)
    (cache : context.cache = after.cache)
    (definitions : ∀ name place, after.cache.find? name = some place →
      reached.definition place = after.definition place) :
    (component.withoutHandle.reattached context).Restores reached before component := by
  refine ⟨rfl, rfl, rfl, rfl, ?_⟩
  rcases found with ⟨undecorated, -⟩ | ⟨resolved, target, place, decorated, isTarget, isCached, same⟩
  · rw [resolvedId?, resolved_reattached_of_none undecorated, resolvedId?, undecorated]
    exact .none
  · rw [resolvedId?, resolved_reattached decorated (cache ▸ isCached), resolvedId?, decorated,
      Option.bind_some, Option.bind_some, isTarget]
    refine .some ?_
    have name : (after.definition place).withoutHandles.name =
        (before.definition target).withoutHandles.name := by rw [same]
    have interfaces : (after.definition place).withoutHandles.interfaces =
        (before.definition target).withoutHandles.interfaces := by rw [same]
    have annotations : (after.definition place).withoutHandles.annotations =
        (before.definition target).withoutHandles.annotations := by rw [same]
    have decorations : (after.definition place).withoutHandles.decorations =
        (before.definition target).withoutHandles.decorations := by rw [same]
    rw [definitions _ place isCached]
    exact ⟨name, interfaces, annotations, congrArg Decorations.singleton decorations⟩

end IsFoundIn

end Component

/-- A definition with the decorations of its sub-components as they are found in a context. -/
def Definition.reattached (context : Context) (definition : Definition) : Definition :=
  { definition with components := definition.components.map (·.reattached context) }

theorem Definition.withoutHandles_reattached {context : Context} {definition : Definition}
    (attached : ∀ component ∈ definition.components,
      (component.withoutHandle.reattached context).withoutHandle = component.withoutHandle) :
    (definition.withoutHandles.reattached context).withoutHandles = definition.withoutHandles := by
  unfold reattached withoutHandles
  simp only [List.map_map]
  congr 1
  · exact List.map_congr_left fun reference _ => reference.stored_stored
  · exact List.map_congr_left fun parameter _ => parameter.stored_stored
  · exact List.map_congr_left attached
  · exact List.map_congr_left fun controller _ => controller.withoutTyped_withoutTyped

/-! ## The stages -/

namespace Context

/-- What is loaded and can be loaded again. Type parameters conform to no types and are declared
where they are used. -/
structure Restorable (frontEnd : FrontEnd) (context : Context) (id : DefinitionId) : Prop where
  settled : (context.definition id).IsSettled frontEnd.signatureExtends context
  typed : (context.definition id).IsTyped context
  once : (context.definition id).typeParameterNames.Nodup
  apart : (context.definition id).NamesApart
  free : ∀ parameter ∈ (context.definition id).typeParameters, parameter.conformsTo = none
  declares : (context.definition id).DeclaresPlaceholders

end Context

namespace Definition

variable {definition : Definition}

theorem typeParameterNames_withoutHandles (definition : Definition) :
    definition.withoutHandles.typeParameterNames = definition.typeParameterNames := by
  change (definition.typeParameters.map _).map _ = _
  rw [List.map_map]
  rfl

theorem DeclaresPlaceholders.withoutHandles (declares : definition.DeclaresPlaceholders) :
    definition.withoutHandles.DeclaresPlaceholders := by
  intro component member parameter isPlaceholder
  obtain ⟨original, among, rfl⟩ := List.mem_map.mp member
  have declared := hasTypeParameter_iff.mp (declares original among parameter isPlaceholder)
  rw [hasTypeParameter_iff, typeParameterNames_withoutHandles]
  exact declared

theorem NamesApart.withoutHandles (apart : definition.NamesApart) :
    definition.withoutHandles.NamesApart := by
  refine apart.of_names ?_
  change (definition.components.map _).map _ = _
  rw [List.map_map]
  rfl

theorem free_withoutHandles
    (free : ∀ parameter ∈ definition.typeParameters, parameter.conformsTo = none) :
    ∀ parameter ∈ definition.withoutHandles.typeParameters, parameter.conformsTo = none := by
  intro parameter member
  obtain ⟨original, among, rfl⟩ := List.mem_map.mp member
  rw [FormalTypeParameter.stored, free original among]
  rfl

/-- A definition whose sub-components find again what they designate is restored. -/
theorem restores_reattached {after before context reached : Context}
    (found : ∀ component ∈ definition.components, component.IsFoundIn after before)
    (cache : context.cache = after.cache)
    (definitions : ∀ name place, after.cache.find? name = some place →
      reached.definition place = after.definition place)
    (free : ∀ parameter ∈ definition.typeParameters, parameter.conformsTo = none) :
    (definition.withoutHandles.reattached context).Restores reached before definition where
  same := rfl
  controllers := by
    change (definition.controllers.map _).map _ = _
    rw [List.map_map]
    exact List.map_congr_left fun controller _ => controller.withoutTyped_withoutTyped
  components := by
    change List.Forall₂ _ ((definition.components.map _).map _) _
    rw [List.map_map, List.forall₂_map_left_iff, List.forall₂_same]
    exact fun component member => (found component member).restores cache definitions
  free := free
  restoredFree := free_withoutHandles free

end Definition

namespace Stage

variable {frontEnd : FrontEnd} {start saved : Context} {name : String} {id place : DefinitionId}

theorem all_eq_resting : all =
    .annotations :: .process .afterParsing :: .typeParameters :: .subComponents ::
      (resting ++ [.attributes, .process .afterChecking]) :=
  rfl

/-- The stages restore a definition from what a bundle keeps of it. -/
theorem all_of_stored (predefined : frontEnd.registry = .predefined)
    (load : String → Loading DefinitionId) (name : String) (within : place < start.arena.size)
    (stored : start.definition place = (saved.definition id).stored)
    (notLoaded : ∀ other, start.cache.find? other ≠ some place)
    (found : ∀ component ∈ (saved.definition id).components, component.IsFoundIn start saved)
    (restorable : saved.Restorable frontEnd id) (types : start.KeepsTypes saved) :
    ∃ reached restored, all.forM (run frontEnd load name place) start = (.ok (), reached) ∧
      restored.withoutHandles = (saved.definition id).withoutHandles ∧
      Reports (start.replace place restored) reached ∧
      reached.log.errors = start.log.errors ∧ reached.KeepsTypes saved := by
  have harmless : AnnotationRegistry.predefined.IsHarmless := AnnotationRegistry.isHarmless_predefined
  have built := restorable.settled.built
  -- first its annotations are built again, then its sub-components are attached
  let first := start.replace place (saved.definition id).withoutHandles
  let restored := (saved.definition id).withoutHandles.reattached first
  let last := start.replace place restored
  have isFirst : first.definition place = (saved.definition id).withoutHandles :=
    definition_replace start _ within
  have isLast : last.definition place = restored := definition_replace start _ within
  have ranAnnotations : run frontEnd load name place .annotations start = (.ok (), first) := by
    simp only [run, predefined]
    rw [AnnotationRegistry.checkDefinition_of_built harmless
      (stored ▸ Definition.everywhere_stored built), stored, Definition.rebuilt_stored built]
  have ranParsing : run frontEnd load name place (.process .afterParsing) first = (.ok (), first) := by
    simp only [run, predefined]
    refine AnnotationRegistry.processStored_afterParsing (Definition.isOrdinary_iff.mpr ?_)
    rw [isFirst]
    exact built.withoutHandles.mono fun _ _ built => built.isPredefined
  have ranParameters : run frontEnd load name place .typeParameters first = (.ok (), first) := by
    refine TypeParameters.check_of_declared _ ?_ ?_ ?_
    · rw [isFirst, Definition.typeParameterNames_withoutHandles]
      exact restorable.once
    · rw [isFirst]
      intro parameter member _ conforms
      rw [Definition.free_withoutHandles restorable.free parameter member] at conforms
      cases conforms
    · rw [isFirst]
      exact restorable.declares.withoutHandles
  have ranComponents : run frontEnd load name place .subComponents first = (.ok (), last) := by
    refine (SubComponents.resolveAll_of_attached _ ?_ ?_).trans ?_
    · rw [isFirst]
      exact restorable.apart.withoutHandles
    · rw [isFirst]
      refine List.forall_mem_map.mpr fun component member => (found component member).attached rfl
    · rw [isFirst]
      exact congrArg (Prod.mk _) (replace_replace start place _ _)
  have definitions : ∀ name target, start.cache.find? name = some target →
      last.definition target = start.definition target := by
    intro name target isCached
    refine definition_replace_of_ne start restored ?_
    rintro rfl
    exact notLoaded name isCached
  have restores : restored.Restores last saved (saved.definition id) :=
    Definition.restores_reattached found rfl definitions restorable.free
  obtain ⟨reached, ran, reports, errors, further⟩ := forM_of_settled predefined load name
    (isLast.symm ▸ restorable.settled.restored restores) (show last.KeepsTypes saved from types)
    (isLast.symm ▸ fun declared member => restorable.typed declared member)
  refine ⟨reached, restored, ?_, ?_, reports, errors, further⟩
  · rw [all_eq_resting, List.forM_eq_forM, List.forM_cons, bind_of_ok ranAnnotations, List.forM_cons,
      bind_of_ok ranParsing, List.forM_cons, bind_of_ok ranParameters, List.forM_cons,
      bind_of_ok ranComponents]
    exact ran
  · exact Definition.withoutHandles_reattached fun component member =>
      (found component member).withoutHandle_reattached rfl

end Stage

end Adl
