import Adl.Proofs.Binding.Quiet
import Adl.Proofs.Binding.Substitutability
import Adl.Proofs.Template.Realization

namespace Adl

open Step Context

/-! The bindings of instances. Those of the generic definition were accepted against the types of its
placeholders; an instance is led through all stages, and when it comes to its bindings it is the
generic definition with conforming definitions in these places. -/

/-- Sub-components that correspond are found by the same name. -/
theorem found_of_forall₂ {Related : Component → Component → Prop}
    {originals components : List Component} (related : List.Forall₂ Related originals components)
    (names : ∀ original component, Related original component → component.name = original.name)
    (name : String) :
    originals.find? (·.name == name) = none ∧ components.find? (·.name == name) = none ∨
      ∃ original ∈ originals, ∃ component, Related original component ∧
        originals.find? (·.name == name) = some original ∧
        components.find? (·.name == name) = some component := by
  induction related with
  | nil => exact .inl ⟨rfl, rfl⟩
  | @cons original component _ _ first _ induction =>
      by_cases same : original.name = name
      · have sameAlso := (names original component first).trans same
        refine .inr ⟨original, List.mem_cons_self, component, first, ?_, ?_⟩
        · exact List.find?_cons_of_pos (by simpa using same)
        · exact List.find?_cons_of_pos (by simpa using sameAlso)
      · have other : component.name ≠ name := (names original component first).trans_ne same
        rw [List.find?_cons_of_neg (by simpa using same), List.find?_cons_of_neg (by simpa using other)]
        exact induction.imp_right fun ⟨found, member, rest⟩ =>
          ⟨found, List.mem_cons_of_mem _ member, rest⟩

namespace InstanceRequest

variable {request : InstanceRequest} {known before context : Context} {made : Definition}
  {extends? : String → String → Bool}

/-- What is bound to the type parameters of placeholders conforms to the types there, has what
conformance leaves open, and has no life cycle. -/
def Conforms (request : InstanceRequest) (extends? : String → String → Bool) (context : Context) :
    Prop :=
  ∀ component ∈ (context.definition request.generic).components,
    ∀ parameter, component.typeParameter = some parameter → ∃ type value,
      (context.definition request.generic).designated? component = some type ∧
      context.LoadedBy type request.generic ∧
      request.bindings.find? parameter = some (.definition value) ∧ context.Loaded value ∧
      .lifeCycleController ∉ (context.definition value).annotations.typed ∧ ∃ span,
        Conformance.problems extends? (context.definition value) (context.definition type) span = [] ∧
        (context.definition value).Completes (context.definition type)
          (context.definition request.generic).bindings component.name

theorem Conforms.fillsPlaceholders (conforms : request.Conforms extends? context) :
    request.FillsPlaceholders context := by
  intro component member parameter isPlaceholder
  obtain ⟨_, value, -, -, bound, -⟩ := conforms component member parameter isPlaceholder
  exact ⟨value, bound⟩

/-- What is known of a generic definition that was loaded without errors: the stages left nothing to
do on it, and its bindings fitted the parts and types as they are. -/
structure Grounded (request : InstanceRequest) (extends? : String → String → Bool) (known : Context) :
    Prop where
  formed : (known.definition request.generic).IsFormed
  apart : (known.definition request.generic).NamesApart
  minds : AnnotationRegistry.MindsParts known (known.definition request.generic)
  decorated : ∀ component ∈ (known.definition request.generic).components,
    component.definition.isSome = true → component.resolvedId?.isSome = true
  loaded : ∀ component ∈ (known.definition request.generic).components, ∀ part,
    component.resolvedId? = some part → known.Loaded part
  built : ∀ id, known.Loaded id → (known.definition id).Everywhere Annotations.AreBuilt
  wired : ∃ before, (known.definition request.generic).Wired extends? before ∧
    ∀ component ∈ (known.definition request.generic).components, ∀ target,
      (known.definition request.generic).designated? component = some target →
        before.definition target = known.definition target ∧
          ∀ interface ∈ (known.definition target).interfaces, interface.IsSized

/-- An instance is the generic definition with its placeholders filled. -/
theorem Realized.fills (realized : request.Realized known context made)
    (conforms : request.Conforms extends? known)
    (same : ∀ component ∈ (known.definition request.generic).components, ∀ target,
      (known.definition request.generic).designated? component = some target →
      before.definition target = known.definition target ∧
        ∀ interface ∈ (known.definition target).interfaces, interface.IsSized)
    (kept : ∀ id, known.Loaded id → context.definition id = known.definition id) :
    (known.definition request.generic).Fills extends? before context made where
  interfaces := realized.upholds.shares.interfaces
  internalInterfaces := realized.upholds.shares.internalInterfaces
  bindings := realized.upholds.shares.bindings
  kind := realized.upholds.kind
  isAbstract := realized.upholds.shares.isAbstract
  names := by
    have related := realized.components
    generalize (known.definition request.generic).components = originals,
      made.components = components at related
    induction related with
    | nil => rfl
    | cons first _ induction => rw [List.map_cons, List.map_cons, induction, first.name]
  takes := by
    intro name
    have designated : ∀ component, made.designated? component = component.resolvedId? := by
      intro component
      unfold Definition.designated? Definition.typeParameter?
      rw [realized.typeParameters]
      cases component.resolvedId? <;> cases component.typeParameter <;> rfl
    unfold Definition.componentDefinition? Definition.component?
    rcases found_of_forall₂ realized.components (fun _ _ occupies => occupies.name) name with
      ⟨absent, absentAlso⟩ | ⟨original, member, component, occupies, isOriginal, isComponent⟩
    · rw [absent, absentAlso]
      exact .nothing
    · rw [isOriginal, isComponent]
      have named : original.name = name := by simpa using List.find?_some isOriginal
      change Definition.Takes extends? before context _ name
        ((known.definition request.generic).designated? original) (made.designated? component)
      rw [designated]
      cases isPlaceholder : original.typeParameter with
      | some parameter =>
          obtain ⟨type, value, isType, -, bound, loaded, -, span, conforms, completes⟩ :=
            conforms original member parameter isPlaceholder
          obtain ⟨other, isBound, isValue⟩ := occupies.bound parameter isPlaceholder
          cases bound.symm.trans isBound
          obtain ⟨sameType, sized⟩ := same original member type isType
          rw [isType, isValue]
          refine .conforming span ?_ (sameType ▸ sized) ?_
          · rw [kept value loaded, sameType]
            exact conforms
          · rw [kept value loaded, sameType, ← named]
            exact completes
      | none =>
          have isDesignated : (known.definition request.generic).designated? original =
              original.resolvedId? := by
            unfold Definition.designated?
            rw [isPlaceholder]
            cases original.resolvedId? <;> rfl
          cases isPart : component.resolvedId? with
          | none => exact .nothing
          | some second =>
              obtain ⟨first, isFirst, stands⟩ := occupies.unbound isPlaceholder second isPart
              rw [isDesignated, isFirst]
              refine .same (stands.interfaces.trans ?_)
              rw [(same original member first (isDesignated.trans isFirst)).1]

/-- A bare instance is the same wherever what is loaded is kept. -/
theorem bare_kept (kept : known.KeepsLoaded context) (loaded : known.Loaded request.generic)
    (closed : request.IsClosed known) (name : String) :
    request.bare context name = request.bare known name := by
  have same : ∀ parameter id, request.bindings.find? parameter = some (.definition id) →
      (context.definition id).name = (known.definition id).name := by
    intro parameter id found
    obtain ⟨_, equal, loaded⟩ := closed.bound _ (Table.mem_values_of_find? found)
    cases equal
    rw [kept.definition id loaded]
  have components : ∀ component, Component.instantiate context request.bindings component =
      Component.instantiate known request.bindings component := by
    intro component
    unfold Component.instantiate
    split
    · split
      · rename_i found
        rw [same _ _ found]
      · rfl
      · rfl
    · simp only [Reference.instantiate_congr same]
  unfold bare
  rw [kept.definition _ loaded, funext components]

theorem BindsAll.kept (binds : request.BindsAll known) (kept : known.KeepsLoaded context) :
    request.BindsAll context where
  closed := ⟨kept.loaded binds.closed.generic, fun binding member =>
    (binds.closed.bound binding member).imp fun _ bound => bound.imp_right kept.loaded⟩
  usable id member := by
    obtain ⟨_, equal, loaded⟩ := binds.closed.bound _ member
    cases equal
    rw [kept.definition id loaded]
    exact binds.usable id member
  all parameter declared := by
    rw [kept.definition _ binds.closed.generic] at declared
    exact binds.all parameter declared

/-- What is made of a generic definition that was loaded without errors has its membrane. -/
theorem Grounded.inside_of_build (grounded : request.Grounded extends? known)
    (fills : request.FillsPlaceholders known) (binds : request.BindsAll known)
    (kept : known.KeepsLoaded context) {name : String} {built : Context}
    (builds : request.build .predefined layers name context = (.ok made, built)) :
    (request.bare known name).EditsInside made := by
  have same := bare_kept kept binds.closed.generic binds.closed name
  have ordinary : (request.bare known name).IsOrdinary :=
    Definition.isOrdinary_iff.mpr (((upholds_bare name (binds.typeParameters_bare name)).built
      grounded.formed.built).mono fun _ _ built => built.isPredefined)
  rw [← same] at ordinary ⊢
  refine ((agree_build_inside ordinary fun index part isPart => ?_).of_ok builds).2.2
  rw [same] at isPart
  have loaded := loaded_of_part_bare fills binds.closed grounded.loaded isPart
  rw [kept.definition part loaded]
  exact (grounded.built part loaded).own.isPredefined

end InstanceRequest

/-! ## The stages -/

namespace Stage

variable {frontEnd : FrontEnd} {load : String → Loading DefinitionId} {name : String}
  {id : DefinitionId} {known context : Context} {request : InstanceRequest}

/-- The stages after the resolution of the sub-components. -/
def afterSubComponents : List Stage :=
  .parents :: afterParents

theorem agree_cons {discipline : Discipline Context} {stage : Stage} {rest : List Stage}
    {middle post : Unit → Context → Prop}
    (first : Agree discipline context (run frontEnd load name id stage)
      (run frontEnd load name id stage) middle)
    (others : ∀ reached, middle () reached → Agree discipline reached
      (rest.forM (run frontEnd load name id)) (rest.forM (run frontEnd load name id)) post) :
    Agree discipline context ((stage :: rest).forM (run frontEnd load name id))
      ((stage :: rest).forM (run frontEnd load name id)) post := by
  change Agree discipline context
    (run frontEnd load name id stage >>= fun _ => rest.forM (run frontEnd load name id))
    (run frontEnd load name id stage >>= fun _ => rest.forM (run frontEnd load name id)) post
  exact first.bind fun _ reached _ _ holds => others reached holds

/-- A stage that leaves a definition alone is passed. -/
theorem agree_passed {stage : Stage} {rest : List Stage} {post : Unit → Context → Prop}
    (stays : run frontEnd load name id stage context = (.ok (), context))
    (others : Agree Context.quiet context (rest.forM (run frontEnd load name id))
      (rest.forM (run frontEnd load name id)) post) :
    Agree Context.quiet context ((stage :: rest).forM (run frontEnd load name id))
      ((stage :: rest).forM (run frontEnd load name id)) post := by
  have first : Agree Context.quiet context (run frontEnd load name id stage)
      (run frontEnd load name id stage) fun _ reached => reached = context :=
    .run stays trivial rfl rfl
  exact agree_cons first fun _ same => same ▸ others

theorem agree_append {first rest : List Stage} {reached : Context} {post : Unit → Context → Prop}
    (ran : first.forM (run frontEnd load name id) context = (.ok (), reached))
    (silent : reached.bindingErrors = context.bindingErrors)
    (others : Agree Context.quiet reached (rest.forM (run frontEnd load name id))
      (rest.forM (run frontEnd load name id)) post) :
    Agree Context.quiet context ((first ++ rest).forM (run frontEnd load name id))
      ((first ++ rest).forM (run frontEnd load name id)) post := by
  have begins : Agree Context.quiet context (first.forM (run frontEnd load name id))
      (first.forM (run frontEnd load name id)) fun _ other => other = reached :=
    .run ran trivial silent rfl
  rw [List.forM_eq_forM, List.forM_append]
  exact begins.bind fun _ _ _ _ same => same ▸ others

/-- The membrane of a definition that is formed is not touched any more. -/
theorem agree_membrane (predefined : frontEnd.registry = .predefined)
    (formed : (context.definition id).IsFormed) :
    Agree Context.quiet context (run frontEnd load name id .membrane) (run frontEnd load name id .membrane)
      fun _ reached => reached = context := by
  refine (agree_run_quiet predefined (by decide)).ran _ fun _ reached ran _ => ?_
  cases found : (context.definition id).membraneProblem? with
  | none =>
      exact congrArg Prod.snd (ran.symm.trans (completeMembrane_of_complete found
        (Definition.componentInterfaceFirst_of_first formed.first)))
  | some problem => cases ran.symm.trans (completeMembrane_of_problem found)

/-- The last stages leave the bindings as they are. -/
theorem agree_last (predefined : frontEnd.registry = .predefined) (making : Making name id context)
    (ordinary : (context.definition id).IsOrdinary) :
    Agree Context.quiet context
      ([.parameters, .attributes, .process .afterChecking].forM (run frontEnd load name id))
      ([.parameters, .attributes, .process .afterChecking].forM (run frontEnd load name id))
      fun _ reached => (reached.definition id).bindings = (context.definition id).bindings := by
  refine (Agree.forM (fun _ => True) trivial trivial fun stage member _ _ _ =>
    agree_run_quiet predefined ?_).ran _ fun _ reached ran _ => ?_
  · simp only [List.mem_cons, List.not_mem_nil, or_false] at member
    rcases member with rfl | rfl | rfl <;> decide
  · obtain ⟨-, attributes, decorations, isLast⟩ := last_of_ran predefined making ordinary ran
    rw [isLast]

/-- Once its sub-components are resolved, an instance goes through the other stages without an error
about its bindings. -/
theorem agree_run_realized (load : String → Loading DefinitionId) (name : String)
    (predefined : frontEnd.registry = .predefined)
    (transitive : IsTransitive frontEnd.signatureExtends)
    (grounded : request.Grounded frontEnd.signatureExtends known)
    (conforms : request.Conforms frontEnd.signatureExtends known)
    (kept : known.KeepsLoaded context)
    (making : Making name id context)
    (realized : request.Realized known context (context.definition id))
    (parts : ∀ component ∈ (context.definition id).components, ∀ part,
      component.resolvedId? = some part → id ≠ part) :
    Agree Context.quiet context (afterSubComponents.forM (run frontEnd load name id))
      (afterSubComponents.forM (run frontEnd load name id))
      fun _ reached => List.Forall₂ Binding.Resettled (reached.definition id).bindings
        (known.definition request.generic).bindings := by
  have formed := grounded.formed.upheld realized.upholds
  have matter : AnnotationRegistry.PartsMatter .onSubComponent context (context.definition id) := by
    refine realized.partsMatter grounded.minds fun component member parameter value isPlaceholder bound => ?_
    obtain ⟨_, _, -, -, isBound, loaded, noLifeCycle, -⟩ :=
      conforms component member parameter isPlaceholder
    cases bound.symm.trans isBound
    exact ⟨kept.definition value loaded, (grounded.built value loaded).own.isPredefined, noLifeCycle⟩
  refine agree_passed (Parents.merge_of_merged _ load formed.merged) (agree_passed ?_ ?_)
  · change frontEnd.registry.processStored .afterExtends id context = _
    rw [predefined]
    exact AnnotationRegistry.processStored_afterExtends formed.built formed.granted
  refine agree_cons ((agree_run_quiet predefined (by decide)).ran (fun _ reached =>
    Making name id reached ∧ EditedAt name id context reached ∧
      (context.definition id).EditsInside (reached.definition id)) fun _ reached ran _ => ?_) ?_
  · change frontEnd.registry.processStoredSubComponents id context = _ at ran
    rw [predefined] at ran
    exact (AnnotationRegistry.agree_processStoredSubComponents_inside making matter).of_ok ran
  rintro told ⟨makingTold, edited, inside⟩
  have isFormed := formed.upheld inside.upholds
  have keptTold : ∀ other, known.Loaded other → told.definition other = known.definition other :=
    fun other loaded => (edited.definition_of_ne (making.ne_of_loaded (kept.loaded loaded))).trans
      (kept.definition other loaded)
  have isRealized : request.Realized known told (told.definition id) :=
    realized.edits inside fun component member part designates =>
      edited.definition_of_ne (parts component member part designates)
  obtain ⟨before, wired, same⟩ := grounded.wired
  have fills := isRealized.fills conforms same keptTold
  obtain ⟨bindings, resettled, ran⟩ := run_of_fills load name transitive wired fills
  refine agree_passed (checkInterfaces_of_silent isFormed.interfaces)
    (agree_passed (delegateInterfaces_of_passed isFormed.passed)
      (agree_cons (agree_membrane predefined isFormed) ?_))
  intro reached same
  rw [same]
  have isBound := definition_replace told { told.definition id with bindings } makingTold.within
  obtain ⟨makingBound, editedBound⟩ := edited_of_runOthers
    (predefined ▸ AnnotationRegistry.isHarmless_predefined) (by decide) makingTold ran
  have ordinary : (told.definition id).IsOrdinary :=
    Definition.isOrdinary_iff.mpr (isFormed.built.mono fun _ _ built => built.isPredefined)
  refine agree_append ran rfl ((agree_last predefined makingBound
    (ordinary.edits editedBound.edits)).mono fun _ last _ _ kept => ?_)
  rw [kept, isBound, ← fills.bindings]
  exact resettled

/-- The stages before the resolution of the sub-components leave an instance alone that has
everything bound. -/
theorem run_of_filled (load : String → Loading DefinitionId) (name : String)
    (predefined : frontEnd.registry = .predefined)
    (built : (context.definition id).Everywhere Annotations.AreBuilt)
    (closed : (context.definition id).typeParameters = [])
    (filled : ∀ component ∈ (context.definition id).components, component.typeParameter = none) :
    ∀ stage ∈ [.annotations, .process .afterParsing, .typeParameters],
      run frontEnd load name id stage context = (.ok (), context) := by
  intro stage member
  simp only [List.mem_cons, List.not_mem_nil, or_false] at member
  rcases member with rfl | rfl | rfl <;> simp only [run, predefined]
  · exact AnnotationRegistry.checkDefinition_of_areBuilt AnnotationRegistry.isHarmless_predefined built
  · exact AnnotationRegistry.processStored_afterParsing
      (Definition.isOrdinary_iff.mpr (built.mono fun _ _ built => built.isPredefined))
  · refine TypeParameters.check_of_declared _ ?_ (fun parameter member => ?_)
      fun component member parameter isPlaceholder => ?_
    · rw [Definition.typeParameterNames, closed]
      exact List.nodup_nil
    · rw [closed] at member
      exact absurd member List.not_mem_nil
    · cases (filled component member).symm.trans isPlaceholder

/-- How the stages end for an instance: what is recorded about bindings is recorded while its
sub-components are resolved, and nothing is if it passes no type parameter on. -/
structure BindsInstance (frontEnd : FrontEnd) (load : String → Loading DefinitionId)
    (request : InstanceRequest) (known : Context) (name : String) (id : DefinitionId) (start : Context)
    (result : Except LoadError Unit) (last : Context) : Prop where
  bound : ∀ error, result = .error error → error.isFatalOf .unboundInterface = false
  inside : ∃ outcome after, run frontEnd load name id .subComponents start = (outcome, after) ∧
    last.bindingErrors = after.bindingErrors ∧
    ((∀ component ∈ (known.definition request.generic).components,
      ¬component.PassesOn request.bindings) → after = start)
  bindings : result = .ok () → List.Forall₂ Binding.Resettled (last.definition id).bindings
    (known.definition request.generic).bindings

theorem bindsInstance_of_ran {levels : Nat} {generic : Bool} {start last : Context}
    {result : Except LoadError Unit} (predefined : frontEnd.registry = .predefined)
    (plain : frontEnd.ParsesPlainly) (transitive : IsTransitive frontEnd.signatureExtends)
    (grounded : request.Grounded frontEnd.signatureExtends known)
    (conforms : request.Conforms frontEnd.signatureExtends known) (binds : request.BindsAll known)
    (kept : known.KeepsLoaded start)
    (valid : (making frontEnd True False name generic id).Valid start)
    (inside : (request.bare known name).EditsInside (start.definition id))
    (ran : all.forM (run frontEnd (frontEnd.loadWithin levels) name id) start = (result, last))
    (stand : request.PartsStand known last id) :
    BindsInstance frontEnd (frontEnd.loadWithin levels) request known name id start result last := by
  have harmless : frontEnd.registry.IsHarmless :=
    predefined ▸ AnnotationRegistry.isHarmless_predefined
  have closedBare := binds.typeParameters_bare name
  have upholds := inside.upholds.trans (InstanceRequest.upholds_bare name closedBare)
  have closed := inside.edits.typeParameters.trans closedBare
  have passed := forM_of_stays (run_of_filled (frontEnd.loadWithin levels) name predefined
    (upholds.built grounded.formed.built) closed
    (conforms.fillsPlaceholders.filled inside.edits.keeps))
  have stays : (∀ component ∈ (known.definition request.generic).components,
      ¬component.PassesOn request.bindings) →
        run frontEnd (frontEnd.loadWithin levels) name id .subComponents start = (.ok (), start) := by
    intro none
    have keeps := inside.edits.keeps
    exact SubComponents.resolveAll_of_linked _
      ((InstanceRequest.namesApart_bare grounded.apart name).keeps keeps) (valid.2.2.linked trivial)
      (conforms.fillsPlaceholders.complete grounded.decorated none keeps)
  have remaining : (.subComponents :: afterSubComponents).forM
      (run frontEnd (frontEnd.loadWithin levels) name id) start = (result, last) := by
    have split : all = [.annotations, .process .afterParsing, .typeParameters] ++
        .subComponents :: afterSubComponents := rfl
    rw [split, List.forM_eq_forM, List.forM_append] at ran
    exact (bind_of_ok passed).symm.trans ran
  rcases outcome : run frontEnd (frontEnd.loadWithin levels) name id .subComponents start with
    ⟨ended, after⟩
  cases ended with
  | error error =>
      cases (bind_of_error outcome).symm.trans remaining
      refine ⟨fun other same => ?_, ⟨_, last, outcome, rfl, fun none => ?_⟩, nofun⟩
      · cases same
        have endures := endures_run (predefined ▸ AnnotationRegistry.endures_predefined)
          (frontEnd.loadWithin levels) name id (show .subComponents ∉ refusing by decide) start
        rw [outcome] at endures
        cases error with
        | fatal diagnostic => exact absurd rfl (endures diagnostic)
        | _ => rfl
      · cases outcome.symm.trans (stays none)
  | ok =>
      have remaining : afterSubComponents.forM
          (run frontEnd (frontEnd.loadWithin levels) name id) after = (result, last) :=
        (bind_of_ok outcome).symm.trans remaining
      obtain ⟨⟨sound, isMaking, made⟩, leads, -, completed, -⟩ :=
        (SubComponents.agree_resolveAll harmless (attends_making frontEnd True name id)
          (FrontEnd.loads_loadWithin harmless plain levels name id) valid.2.1 valid).of_ok outcome
      obtain ⟨components, isResolved, same⟩ :=
        SubComponents.resolved_of_resolveAll outcome isMaking.within
      have upholds : (after.definition id).Upholds (known.definition request.generic) := by
        rw [isResolved]
        exact (Definition.Upholds.resolved same).trans upholds
      have keptAfter := kept.trans ((Advances.path leads).keepsLoaded valid.1.hasSlots).1
      have parts : ∀ component ∈ (after.definition id).components, ∀ part,
          component.resolvedId? = some part → id ≠ part := fun component member part isPart =>
        isMaking.ne_of_loaded ((made.linked trivial).loaded member isPart)
      have merged := upholds.merged.trans grounded.formed.merged
      have ranOthers : afterParents.forM (run frontEnd (frontEnd.loadWithin levels) name id) after =
          (result, last) :=
        (bind_of_ok (Parents.merge_of_merged _ _ merged)).symm.trans remaining
      have edited : EditedAt name id after last := by
        have agree : Agree (editing name id) after
            (afterParents.forM (run frontEnd (frontEnd.loadWithin levels) name id))
            (afterParents.forM (run frontEnd (frontEnd.loadWithin levels) name id)) fun _ _ => True :=
          agree_runOthers harmless (by decide) isMaking
        have leads := agree.leads
        rwa [ranOthers] at leads
      have standAfter : request.PartsStand known after id := by
        intro index original found passes first second isFirst isSecond
        obtain ⟨component, isComponent, designates⟩ := Option.bind_eq_some_iff.mp isSecond
        have stands := stand index original found passes first second isFirst
          ((edited.edits.keeps.part? index).trans isSecond)
        rwa [edited.definition_of_ne
          (parts component (List.mem_of_getElem? isComponent) second designates)] at stands
      have realized := InstanceRequest.realized_of_completed conforms.fillsPlaceholders
        grounded.decorated (fun component member part isPart => keptAfter.definition part
          (grounded.loaded component member part isPart)) standAfter
        (completed.ofKeeps inside.edits.keeps) upholds (isResolved ▸ closed)
      have agree := agree_run_realized (frontEnd.loadWithin levels) name predefined transitive grounded
        conforms keptAfter isMaking realized parts
      have leads := agree.leads
      have ends := agree.ended
      rw [remaining] at leads ends
      refine ⟨fun error same => ?_, ⟨_, after, outcome, leads, fun none => ?_⟩, fun same => ?_⟩
      · cases same
        exact ends
      · cases (stays none).symm.trans outcome
        rfl
      · cases same
        exact ends

end Stage

end Adl
