import Adl.Proofs.Loading.Retention
import Adl.Proofs.Loading.Running
import Mathlib.Data.List.Pairwise

namespace Adl

open Step Context

/-! What instances keep open. A type parameter that is bound to one of the definition around the
reference goes by the name of that one in the instance, and so do its placeholders. Where two are
bound to the same one, the instance declares this twice. -/

/-! ## Names -/

namespace TypeBindings

/-- The enclosing type parameter that a type parameter is bound to. -/
def renamed? (bindings : TypeBindings) (parameter : String) : Option String :=
  match bindings.find? parameter with
  | some (.parameter renamed) => some renamed
  | _ => none

theorem renamed?_eq_some_iff {bindings : TypeBindings} {parameter used : String} :
    bindings.renamed? parameter = some used ↔
      bindings.find? parameter = some (.parameter used) := by
  unfold renamed?
  split
  · rename_i renamed found
    rw [found]
    simp
  · rename_i notRenamed
    exact ⟨nofun, fun found => (notRenamed used found).elim⟩

end TypeBindings

theorem names_openTypeParameters (bindings : TypeBindings)
    (parameters : List FormalTypeParameter) :
    (openTypeParameters bindings parameters).map (·.name) =
      (parameters.map (·.name)).filterMap bindings.renamed? := by
  rw [openTypeParameters, List.map_filterMap, List.filterMap_map]
  refine List.filterMap_congr fun parameter _ => ?_
  simp only [Function.comp, TypeBindings.renamed?]
  cases bindings.find? parameter.name with
  | none => rfl
  | some binding => cases binding <;> rfl

/-- What some of different names become differs where no two become the same. -/
theorem nodup_filterMap_iff {names : List String} {rename? : String → Option String}
    (distinct : names.Nodup) :
    (names.filterMap rename?).Nodup ↔ ∀ first ∈ names, ∀ second ∈ names, ∀ used,
      rename? first = some used → rename? second = some used → first = second := by
  rw [List.Nodup, List.pairwise_filterMap]
  constructor
  · intro apart first member second other used isFirst isSecond
    by_contra different
    have symmetric : Std.Symm fun first second => ∀ used ∈ rename? first,
        ∀ other ∈ rename? second, used ≠ other :=
      ⟨fun _ _ holds used isUsed other isOther => (holds other isOther used isUsed).symm⟩
    exact apart.forall member other different used isFirst used isSecond rfl
  · intro apart
    refine distinct.imp_of_mem fun member other different used isFirst _ isSecond same => ?_
    exact different (apart _ member _ other used isFirst (same ▸ isSecond))

/-! ## Placeholders -/

/-- A placeholder that is not filled goes by the new name. -/
theorem Component.typeParameter_instantiate {context : Context} {bindings : TypeBindings}
    (component : Component) :
    (component.instantiate context bindings).typeParameter =
      component.typeParameter.bind fun parameter =>
        match bindings.find? parameter with
        | some (.definition _) => none
        | some (.parameter renamed) => some renamed
        | none => some parameter := by
  unfold instantiate
  cases isPlaceholder : component.typeParameter with
  | some parameter =>
      simp only [Option.bind_some]
      cases bindings.find? parameter with
      | none => exact isPlaceholder
      | some binding => cases binding <;> rfl
  | none =>
      simp only [Option.bind_none]
      split
      · split
        · rfl
        · exact isPlaceholder
      · exact isPlaceholder

namespace InstanceRequest

variable {request : InstanceRequest} {context : Context} {name : String}

/-- The generic definition declares different type parameters, and among them those that its
placeholders name. The request binds each. -/
structure IsWellFormed (request : InstanceRequest) (context : Context) : Prop where
  distinct : (context.definition request.generic).typeParameterNames.Nodup
  declares : (context.definition request.generic).DeclaresPlaceholders
  covers : ∀ parameter ∈ (context.definition request.generic).typeParameterNames,
    request.bindings.contains parameter = true

/-- No two type parameters of the generic definition are bound to the same enclosing one. -/
def KeepsApart (request : InstanceRequest) (context : Context) : Prop :=
  ∀ first ∈ (context.definition request.generic).typeParameterNames,
    ∀ second ∈ (context.definition request.generic).typeParameterNames, ∀ used,
      request.bindings.find? first = some (.parameter used) →
      request.bindings.find? second = some (.parameter used) → first = second

theorem typeParameterNames_bare (request : InstanceRequest) (context : Context) (name : String) :
    (request.bare context name).typeParameterNames =
      (context.definition request.generic).typeParameterNames.filterMap
        request.bindings.renamed? :=
  names_openTypeParameters _ _

theorem nodup_bare_iff (distinct : (context.definition request.generic).typeParameterNames.Nodup) :
    (request.bare context name).typeParameterNames.Nodup ↔ request.KeepsApart context := by
  rw [typeParameterNames_bare, nodup_filterMap_iff distinct]
  simp only [TypeBindings.renamed?_eq_some_iff]
  rfl

/-- What is left open of the placeholders is declared. -/
theorem declaresPlaceholders_bare (wellFormed : request.IsWellFormed context) :
    (request.bare context name).DeclaresPlaceholders := by
  intro component member used isPlaceholder
  obtain ⟨original, among, rfl⟩ := List.mem_map.mp member
  rw [Component.typeParameter_instantiate] at isPlaceholder
  obtain ⟨parameter, isParameter, isUsed⟩ := Option.bind_eq_some_iff.mp isPlaceholder
  have declared := Definition.hasTypeParameter_iff.mp
    (wellFormed.declares original among parameter isParameter)
  obtain ⟨binding, bound⟩ := Option.isSome_iff_exists.mp (wellFormed.covers parameter declared)
  rw [Definition.hasTypeParameter_iff, typeParameterNames_bare]
  refine List.mem_filterMap.mpr ⟨parameter, declared, ?_⟩
  rw [TypeBindings.renamed?_eq_some_iff]
  rw [bound] at isUsed
  cases binding with
  | definition id => exact nomatch isUsed
  | parameter renamed =>
      cases isUsed
      exact bound

end InstanceRequest

/-! ## The check -/

namespace TypeParameters

/-- The check of the types that type parameters conform to, on its own. -/
def checkTypes (resolve : Resolver) (id : DefinitionId) : Loading Unit := do
  let definition ← Loading.definition id
  if definition.isGeneric || definition.components.any (·.typeParameter.isSome) then
    Loading.revise id do
      let _ ← Drafting.onPart (·.typeParameters)
        (fun typeParameters definition => { definition with typeParameters })
        (Drafting.each fun _ => checkConformance resolve id)

theorem preserves_checkConformance (resolve : Resolver) (id : DefinitionId) :
    Drafting.Preserves FormalTypeParameter.name (checkConformance resolve id) := by
  refine .bind .draft fun parameter => ?_
  split
  · exact .pure _
  · split
    · exact .pure _
    · refine .bind (.onPart _ fun _ _ => rfl) fun found => ?_
      split
      · exact .pure _
      · refine .bind (.lift _) fun type => ?_
        split
        · exact .bind .draft fun _ => .lift _
        · exact .pure _

theorem repeatedBy_eq_nil {α : Type} {key : α → String} {seen : List String} {items : List α}
    (fresh : ∀ item ∈ items, key item ∉ seen) (distinct : (items.map key).Nodup) :
    repeatedBy key seen items = [] := by
  induction items generalizing seen with
  | nil => rfl
  | cons item rest induction =>
      obtain ⟨isFresh, areFresh⟩ := List.forall_mem_cons.mp fresh
      obtain ⟨apart, distinctRest⟩ := List.nodup_cons.mp distinct
      rw [repeatedBy, if_neg (by rwa [List.contains_iff_mem])]
      refine induction (fun other member => ?_) distinctRest
      refine fun known => (List.mem_cons.mp known).elim (fun same => apart ?_)
        (areFresh other member)
      exact same ▸ List.mem_map_of_mem member

theorem checkPlaceholder_of_declared {definition : Definition} {component : Component}
    {context : Context}
    (declared : ∀ parameter, component.typeParameter = some parameter →
      definition.hasTypeParameter parameter = true) :
    checkPlaceholder definition component context = (.ok (), context) := by
  unfold checkPlaceholder
  cases isPlaceholder : component.typeParameter with
  | none => rfl
  | some parameter =>
      dsimp only
      rw [if_pos (declared parameter isPlaceholder)]
      rfl

/-- Nothing is said of type parameters that differ and placeholders that are declared. -/
theorem check_eq_checkTypes {resolve : Resolver} {id : DefinitionId} {context : Context}
    (distinct : (context.definition id).typeParameterNames.Nodup)
    (declares : (context.definition id).DeclaresPlaceholders) :
    check resolve id context = checkTypes resolve id context := by
  generalize isDefinition : context.definition id = definition at distinct declares
  have checks : check resolve id context = _ := Step.bind_of_ok rfl
  have checksTypes : checkTypes resolve id context = _ := Step.bind_of_ok rfl
  rw [checks, checksTypes, isDefinition]
  split
  · have silent : recordRepeated definition context = (.ok (), context) := by
      rw [recordRepeated, repeatedBy_eq_nil (fun _ _ => List.not_mem_nil) distinct]
      rfl
    have revised : ∀ {first second : Revising Definition Unit},
        first (context, definition) = second (context, definition) →
        Loading.revise id first context = Loading.revise id second context := by
      intro first second same
      unfold Loading.revise
      rw [isDefinition, same]
    refine revised ?_
    rw [Step.bind_of_ok (Drafting.lift_of_ok silent)]
    have names := Drafting.Preserves.each (fun _ => preserves_checkConformance resolve id)
      context definition.typeParameters
    rw [Step.bind_apply, Step.bind_apply]
    simp only [Drafting.onPart]
    rcases outcome : Drafting.each (fun _ => checkConformance resolve id)
      (context, definition.typeParameters) with ⟨_ | values, reached, parameters⟩
    · rfl
    · rw [outcome] at names
      have sameNames : parameters.map (·.name) = definition.typeParameterNames := names
      refine Step.forM_of_stays fun component member => ?_
      refine Step.read_bind rfl (Drafting.lift_of_ok (checkPlaceholder_of_declared ?_))
      intro parameter isPlaceholder
      have declared := declares component member parameter isPlaceholder
      rw [Definition.hasTypeParameter_iff, ← sameNames] at declared
      exact Definition.hasTypeParameter_iff.mpr declared
  · rfl

end TypeParameters

/-! ## Instances -/

namespace InstanceRequest

open LoadCache

variable {frontEnd : FrontEnd} {request : InstanceRequest} {context after : Context}
  {built : Definition}

/-- A load that runs through: the definition is found and goes through the stages. -/
theorem ok_of_runStages {load : String → Loading DefinitionId} {stages : List Stage}
    {name : String} {id : DefinitionId} {before : Context}
    (ran : frontEnd.runStages load stages name context = (.ok id, before)) :
    ∃ counted found, Reports context counted ∧
      Sources.find frontEnd name counted = (.ok id, found) ∧
      stages.forM (Stage.run frontEnd load name id) found = (.ok (), before) := by
  unfold FrontEnd.runStages at ran
  split at ran
  · obtain ⟨_, counted, counts, ran⟩ := ok_of_bind ran
    cases counts
    obtain ⟨found, middle, finds, ran⟩ := ok_of_bind ran
    obtain ⟨_, _, ran, ends⟩ := ok_of_bind ran
    cases ends
    exact ⟨context.countLoad name, middle, { Reports.refl context with }, finds, ran⟩
  · obtain ⟨found, middle, finds, ran⟩ := ok_of_bind ran
    obtain ⟨_, _, ran, ends⟩ := ok_of_bind ran
    cases ends
    exact ⟨context, middle, .refl context, finds, ran⟩

/-- The definition that comes to the check of its type parameters was edited only. -/
theorem edits_of_runStages (harmless : frontEnd.registry.IsHarmless) {name : String}
    (sound : context.Sound False) (unknown : context.isKnown name = false)
    (named : built.name = name) {load : String → Loading DefinitionId} {id : DefinitionId}
    {before : Context}
    (ran : frontEnd.runStages load [.annotations, .process .afterParsing] name
      (entering (context.register name built).2 name) = (.ok id, before)) :
    built.Edits (before.definition id) := by
  simp only [Context.isKnown, Bool.or_eq_false_iff] at unknown
  have absent := Table.find?_eq_none_of_not_contains unknown.1.1
  have soundStart : (entering (context.register name built).2 name).Sound False :=
    (sound.register named False.elim).loading _
  obtain ⟨counted, found, reports, finds, ran⟩ := ok_of_runStages ran
  have registered : counted.registered.find? name = some context.arena.size := by
    rw [reports.registered]
    exact (Table.find?_insert ..).trans (if_pos rfl)
  have plain : False → frontEnd.ParsesPlainly := False.elim
  have agree := Sources.agree_find plain (soundStart.ofReports reports)
    (reports.loading ▸ List.mem_append_right _ (List.mem_singleton_self name))
    (reports.cache ▸ absent)
  obtain ⟨-, -, isMaking⟩ := agree.of_ok finds
  cases isMaking.known _ registered
  have same : found = counted := by
    obtain ⟨_, _, reads, finds⟩ := ok_of_bind finds
    cases reads
    rw [registered] at finds
    cases finds
    rfl
  rw [same] at isMaking ran
  have stored : counted.definition context.arena.size = built :=
    (reports.definition _).trans (definition_push_size context built)
  obtain ⟨-, edited⟩ := Stage.edited_of_runOthers harmless (by decide) isMaking.making ran
  exact stored ▸ edited.definition.1

/-- What an instance declares: the enclosing type parameters that the request uses, in the order
of those that are bound to them. Its placeholders name them. Each is declared once, and the check
of the type parameters is only one of the types that they conform to, where no two are bound to
the same one; else some are repeated. -/
theorem open_parameters_of_instance (frontEnd : FrontEnd)
    (harmless : frontEnd.registry.IsHarmless) (request : InstanceRequest) (context after : Context)
    (built : Definition) (sound : context.Sound False)
    (wellFormed : request.IsWellFormed context)
    (unknown : context.isKnown (request.instanceName context) = false)
    (builds : request.build frontEnd.registry layers (request.instanceName context) context =
      (.ok built, after)) :
    built.typeParameterNames = (context.definition request.generic).typeParameterNames.filterMap
        request.bindings.renamed? ∧
      built.DeclaresPlaceholders ∧
      (built.typeParameterNames.Nodup ↔ request.KeepsApart context) ∧
      ∀ load id before, frontEnd.runStages load [.annotations, .process .afterParsing]
          (request.instanceName context)
          (entering (after.register (request.instanceName context) built).2
            (request.instanceName context)) = (.ok id, before) →
        (request.KeepsApart context →
          Stage.typeParameters.run frontEnd load (request.instanceName context) id before =
            TypeParameters.checkTypes (Resolver.full frontEnd load) id before) ∧
        (¬request.KeepsApart context →
          repeatedBy FormalTypeParameter.name [] (before.definition id).typeParameters ≠ []) := by
  obtain ⟨-, reports, edits⟩ := (agree_build harmless layers).of_ok builds
  have keeps := edits.keeps
  have names := keeps.typeParameters.trans (typeParameterNames_bare request context _)
  have nodup : built.typeParameterNames.Nodup ↔ request.KeepsApart context := by
    rw [keeps.typeParameters]
    exact nodup_bare_iff wellFormed.distinct
  have declared : built.DeclaresPlaceholders :=
    (declaresPlaceholders_bare wellFormed).keeps keeps.symm
  refine ⟨names, declared, nodup, fun load id before ran => ?_⟩
  have unknownAfter : after.isKnown (request.instanceName context) = false := by
    rw [← unknown, Context.isKnown, Context.isKnown, reports.cache, reports.registered,
      reports.registeredSources]
  have edited := edits_of_runStages harmless (sound.ofReports reports) unknownAfter keeps.name ran
  have nodupBefore : (before.definition id).typeParameterNames.Nodup ↔ request.KeepsApart context := by
    rw [edited.keeps.typeParameters]
    exact nodup
  refine ⟨fun apart => ?_, fun notApart unrepeated => ?_⟩
  · exact TypeParameters.check_eq_checkTypes (nodupBefore.mpr apart)
      (declared.keeps edited.keeps.symm)
  · exact notApart (nodupBefore.mp (nodup_of_repeatedBy unrepeated).2)

/-- A generic composite with two placeholders. -/
def paired : Context :=
  .ofDefinitions .default
    [ { Definition.ofKind "a.G" .composite with
        typeParameters := [⟨"A", none, .generated⟩, ⟨"B", none, .generated⟩]
        components :=
          [⟨"p", none, some "A", .generated, .none, none, false⟩,
            ⟨"q", none, some "B", .generated, .none, none, false⟩] } ]

/-- Its type parameters are bound to those of another definition. -/
def renamedTo (first second : String) : InstanceRequest :=
  ⟨0, (Table.empty.insert "A" (.parameter first)).insert "B" (.parameter second)⟩

theorem typeParameterNames_paired : (paired.definition 0).typeParameterNames = ["A", "B"] := by
  decide +kernel

theorem isWellFormed_renamedTo (first second : String) :
    (renamedTo first second).IsWellFormed paired where
  distinct := show (paired.definition 0).typeParameterNames.Nodup by decide +kernel
  declares := show (paired.definition 0).DeclaresPlaceholders by decide +kernel
  covers := by
    change ∀ parameter ∈ (paired.definition 0).typeParameterNames, _
    rw [typeParameterNames_paired]
    simp [renamedTo, Table.contains]

/-- Two that are bound to different ones, in whatever order, are declared under their new names. -/
theorem renamed_apart_declared_once :
    ∃ built after, (renamedTo "Y" "X").build FrontEnd.registeredOnly.registry layers
        ((renamedTo "Y" "X").instanceName paired) paired = (.ok built, after) ∧
      built.typeParameterNames = ["Y", "X"] ∧ built.DeclaresPlaceholders ∧
      ∀ load id before, FrontEnd.registeredOnly.runStages load
          [.annotations, .process .afterParsing] ((renamedTo "Y" "X").instanceName paired)
          (entering (after.register ((renamedTo "Y" "X").instanceName paired) built).2
            ((renamedTo "Y" "X").instanceName paired)) = (.ok id, before) →
        Stage.typeParameters.run FrontEnd.registeredOnly load
            ((renamedTo "Y" "X").instanceName paired) id before =
          TypeParameters.checkTypes (Resolver.full FrontEnd.registeredOnly load) id before := by
  have succeeds : ((renamedTo "Y" "X").build FrontEnd.registeredOnly.registry layers
      ((renamedTo "Y" "X").instanceName paired) paired).1.toOption.isSome = true := by
    decide +kernel
  rcases outcome : (renamedTo "Y" "X").build FrontEnd.registeredOnly.registry layers
    ((renamedTo "Y" "X").instanceName paired) paired with ⟨error | built, after⟩
  · rw [outcome] at succeeds
    exact nomatch succeeds
  · obtain ⟨names, declares, -, checks⟩ := open_parameters_of_instance FrontEnd.registeredOnly
      AnnotationRegistry.isHarmless_predefined (renamedTo "Y" "X") paired after built
      (sound_ofDefinitions _ _ False.elim) (isWellFormed_renamedTo _ _) (by decide +kernel) outcome
    have apart : (renamedTo "Y" "X").KeepsApart paired := by
      unfold KeepsApart
      change ∀ first ∈ (paired.definition 0).typeParameterNames,
        ∀ second ∈ (paired.definition 0).typeParameterNames, _
      rw [typeParameterNames_paired]
      simp [renamedTo]
    refine ⟨built, after, rfl, names.trans (by decide +kernel), declares,
      fun load id before ran => (checks load id before ran).1 apart⟩

/-- Two that are bound to the same one are declared twice, and this is reported. -/
theorem renamed_alike_declared_twice :
    (renamedTo "X" "X").IsWellFormed paired ∧
      paired.isKnown ((renamedTo "X" "X").instanceName paired) = false ∧
      (FrontEnd.registeredOnly.instantiate (renamedTo "X" "X") paired).1 = .ok 1 ∧
      ((FrontEnd.registeredOnly.instantiate (renamedTo "X" "X") paired).2.definition
        1).typeParameterNames = ["X", "X"] ∧
      (FrontEnd.registeredOnly.instantiate (renamedTo "X" "X") paired).2.log.errors =
        [.error .duplicateName .generated "duplicate type parameter 'X'"] :=
  ⟨isWellFormed_renamedTo _ _, by decide +kernel, by decide +kernel, by decide +kernel,
    by decide +kernel⟩

end InstanceRequest

end Adl
