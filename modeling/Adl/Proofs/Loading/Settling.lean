import Adl.Proofs.Loading.Restoring
import Adl.Proofs.Loading.Typing

namespace Adl

open Step Context

/-! What is loaded comes out of the last stages settled: a stage that came to it again would find
nothing to do. -/

/-! ## Annotations -/

namespace Definition

variable {original changed : Definition}

/-- Annotations that are built stay, and others are attached to them. -/
structure KeepsAnnotations (original changed : Definition) : Prop where
  typed : ∀ item ∈ changed.annotations.typed,
    item ∈ original.annotations.typed ∨ item = .singleton
  single : original.StaysSingle changed

theorem KeepsAnnotations.of_same (same : changed.annotations = original.annotations) :
    original.KeepsAnnotations changed :=
  ⟨fun _ member => .inl (same ▸ member), .of_same same⟩

theorem Edit.keepsAnnotations (built : original.Everywhere Annotations.AreBuilt)
    (edit : Edit original changed) : original.KeepsAnnotations changed := by
  cases edit with
  | annotated path =>
      cases path with
      | definition => exact .of_same built.own.rebuilt
      | _ => exact .of_same rfl
  | attached isNew =>
      refine ⟨fun item member => ?_, fun _ => ?_⟩
      · exact (List.mem_append.mp member).imp_right List.mem_singleton.mp
      · exact Annotations.BuildsSingleton.has_of_mem
          (List.mem_append_right _ (List.mem_singleton_self _))
  | _ => exact .of_same rfl

theorem Edits.keepsAnnotations (built : original.Everywhere Annotations.AreBuilt)
    (edits : original.Edits changed) : original.KeepsAnnotations changed := by
  induction edits with
  | refl => exact .of_same rfl
  | tail earlier edit induction =>
      have further := edit.keepsAnnotations (built.edits Annotations.AreBuilt.survives earlier)
      refine ⟨fun item member => ?_, further.single ∘ induction.single⟩
      exact (further.typed item member).elim (induction.typed item) .inr

end Definition

/-! ## The membrane -/

theorem interfaceProblems_of_sized {seen : List String} {interfaces : List Interface}
    (sized : ∀ interface ∈ interfaces, interface.IsSized)
    (fresh : ∀ interface ∈ interfaces, interface.name ∉ seen)
    (distinct : (interfaces.map (·.name)).Nodup) : interfaceProblems seen interfaces = [] := by
  induction interfaces generalizing seen with
  | nil => rfl
  | cons interface rest induction =>
      obtain ⟨isNew, distinct⟩ := List.nodup_cons.mp distinct
      have isSized := sized interface List.mem_cons_self
      have isFresh := fresh interface List.mem_cons_self
      unfold interfaceProblems
      rw [if_neg (by simpa using isFresh), if_neg isSized]
      refine induction (fun other member => sized other (List.mem_cons_of_mem _ member))
        (fun other member known => ?_) distinct
      rcases List.mem_cons.mp known with same | known
      · exact isNew (List.mem_map.mpr ⟨other, member, same⟩)
      · exact fresh other (List.mem_cons_of_mem _ member) known

namespace Definition

variable {original changed : Definition}

/-- What comes out of the delegation delegates nothing more. -/
theorem Delegates.delegatedInterfaces (delegates : original.Delegates changed)
    (composite : changed.isComposite = true) : changed.delegatedInterfaces = [] := by
  rcases delegates with ⟨rfl, nothing⟩ | made
  · exact nothing composite
  · exact delegatedInterfaces_withDelegator made

/-- Edits that bring no interface and take no controller away bring nothing to delegate. -/
theorem Edits.delegatedInterfaces (edits : original.Edits changed)
    (interfaces : changed.interfaces ⊆ original.interfaces)
    (controllers : original.controllers ⊆ changed.controllers)
    (nothing : original.delegatedInterfaces = []) : changed.delegatedInterfaces = [] := by
  refine delegatedInterfaces_eq_nil_iff.mpr fun external member free needed => ?_
  exact delegatedInterfaces_eq_nil_iff.mp nothing external (interfaces member)
    (fun controller among => free controller (controllers among)) (needed.imp_right edits.usesOnThis)

end Definition

namespace Stage

variable {frontEnd : FrontEnd} {load : String → Loading DefinitionId} {name : String}
  {id : DefinitionId} {before after later : Context}

/-- What was due for controllers is granted, and stays so. -/
theorem granted_of_ran (predefined : frontEnd.registry = .predefined) (making : Making name id before)
    (ran : run frontEnd load name id (.process .afterExtends) before = (.ok (), after))
    (built : (before.definition id).Everywhere Annotations.AreBuilt)
    (edited : EditedAt name id after later) (silent : later.log.errors = []) :
    ∀ item ∈ (later.definition id).annotations.typed, item.phases.contains .afterExtends = true →
      (later.definition id).Grants item.directive := by
  change frontEnd.registry.processStored .afterExtends id before = (.ok (), after) at ran
  rw [predefined] at ran
  have ordinary : (before.definition id).IsOrdinary :=
    Definition.isOrdinary_iff.mpr (built.mono fun _ _ built => built.isPredefined)
  obtain ⟨-, editedAfter, -, grants⟩ :=
    (AnnotationRegistry.agree_processStored_grants making ordinary).of_ok ran
  have kept := edited.edits.keepsAnnotations
    (built.edits Annotations.AreBuilt.survives editedAfter.edits)
  intro item member isDue
  rcases kept.typed item member with among | rfl
  · exact (grants (edited.silent silent) item among isDue).edits edited.edits
  · exact absurd isDue (by decide)

/-- A definition that was told what its parts are minds them, and goes on doing so. -/
theorem minds_of_ran (predefined : frontEnd.registry = .predefined) (making : Making name id before)
    (ran : run frontEnd load name id .subComponentAnnotations before = (.ok (), after))
    (built : (before.definition id).Everywhere Annotations.AreBuilt)
    (edited : EditedAt name id after later)
    (parts : ∀ index part, (later.definition id).part? index = some part →
      id ≠ part ∧ (later.definition part).Everywhere Annotations.AreBuilt) :
    AnnotationRegistry.MindsParts later (later.definition id) := by
  change frontEnd.registry.processStoredSubComponents id before = (.ok (), after) at ran
  rw [predefined] at ran
  obtain ⟨-, editedAfter, spreads⟩ :=
    (AnnotationRegistry.agree_processStoredSubComponents_spread making).of_ok ran
  obtain ⟨-, -, minds⟩ :=
    (AnnotationRegistry.agree_processStoredSubComponents_minds making).of_ok ran
  have kept := edited.edits.keepsAnnotations
    (built.edits Annotations.AreBuilt.survives editedAfter.edits)
  have editedOn : EditedAt name id before later := EditedAt.trans editedAfter edited
  have earlier : ∀ {index part}, (later.definition id).part? index = some part →
      (before.definition id).part? index = some part ∧
        before.definition part = later.definition part := fun {index part} isPart =>
    ⟨(editedOn.edits.keeps.part? index).symm.trans isPart,
      (editedOn.definition_of_ne (parts index part isPart).1).symm⟩
  refine ⟨?_, ?_, ?_⟩
  · exact fun index part isPart => (parts index part isPart).2.own.isPredefined
  · intro index part isPart member
    obtain ⟨wasPart, same⟩ := earlier isPart
    exact kept.single (spreads index part wasPart (same ▸ member))
  · intro index part isPart member
    obtain ⟨wasPart, same⟩ := earlier isPart
    exact (minds index part wasPart (same ▸ member)).edits edited.edits

/-- Nothing is delegated any more once it was. -/
theorem delegated_of_ran (making : Making name id before)
    (ran : run frontEnd load name id .delegation before = (.ok (), after))
    (composite : (after.definition id).isComposite = true) :
    (after.definition id).delegatedInterfaces = [] := by
  obtain ⟨-, -, delegates⟩ := (agree_delegateInterfaces making).of_ok ran
  have delegates : (before.definition id).Delegates (after.definition id) := delegates
  exact delegates.delegatedInterfaces composite

/-- Nothing is delegated any more once the membrane is complete. -/
theorem passed_of_ran (making : Making name id before)
    (ran : [.interfaces, .delegation, .membrane].forM (run frontEnd load name id) before =
      (.ok (), after)) (composite : (after.definition id).isComposite = true) :
    (after.definition id).delegatedInterfaces = [] := by
  obtain ⟨checked, ranInterfaces, ran⟩ := ran_cons ran
  obtain ⟨delegated, ranDelegation, ran⟩ := ran_cons ran
  have ranMembrane := ran_singleton ran
  obtain ⟨makingChecked, -, -, -⟩ := (agree_checkInterfaces making).of_ok ranInterfaces
  obtain ⟨makingDelegated, -, -⟩ := (agree_delegateInterfaces makingChecked).of_ok ranDelegation
  obtain ⟨-, -, -, ordered⟩ := (agree_completeMembrane makingDelegated).of_ok ranMembrane
  have edits := (delegated.definition id).componentInterfaceFirst_edits
  obtain ⟨interfaces, perm, -, same⟩ := (delegated.definition id).componentInterfaceFirst_eq
  rw [ordered] at composite ⊢
  rw [same] at composite edits ⊢
  exact edits.delegatedInterfaces perm.subset (List.Subset.refl _)
    (delegated_of_ran makingChecked ranDelegation composite)

/-- The interface of the component itself comes first once the membrane is complete. -/
theorem first_of_ran (making : Making name id before)
    (ran : [.interfaces, .delegation, .membrane].forM (run frontEnd load name id) before =
      (.ok (), after)) (silent : after.log.errors = []) :
    ∀ external ∈ (after.definition id).interfaces, external.name = Membrane.componentInterface →
      (after.definition id).interfaces.head? = some external := by
  obtain ⟨delegated, ranDelegation, ranOrder⟩ := ran_append [.interfaces, .delegation] ran
  obtain ⟨makingDelegated, -, declared⟩ := declared_of_ran making ranDelegation
  obtain ⟨-, edited, -, ordered⟩ :=
    (agree_completeMembrane makingDelegated).of_ok (ran_singleton ranOrder)
  obtain ⟨-, distinct⟩ := sized_of_no_problems (declared (edited.silent silent))
  rw [ordered]
  obtain ⟨_, perm, -, same⟩ := (delegated.definition id).componentInterfaceFirst_eq
  intro external member
  refine Definition.head?_componentInterfaceFirst distinct (perm.subset ?_)
  rwa [same] at member

/-! ## Bindings -/

/-- Bindings note what their check gives. -/
theorem checks_of_ran (making : Making name id before)
    (ran : [.expandBindings, .checkBindings].forM (run frontEnd load name id) before = (.ok (), after))
    (silent : after.log.errors = []) :
    ∀ binding ∈ (after.definition id).bindings, binding.check (after.definition id) after
      frontEnd.signatureExtends = .ok binding.castRequired := by
  obtain ⟨normalized, ranExpand, ran⟩ := ran_cons ran
  have ranCheck := ran_singleton ran
  obtain ⟨makingNormalized, -, -⟩ :=
    (agree_onBindings making (agree_normalizeBindings _)).of_ok ranExpand
  obtain ⟨-, editedChecked, -⟩ :=
    (agree_onBindings makingNormalized (agree_checkBindings _ _)).of_ok ranCheck
  obtain ⟨bindings, isChecked, checks⟩ := checked_of_ran makingNormalized ranCheck silent
  have interfaces : after.SharesInterfaces normalized :=
    editedChecked.sharesInterfaces (by rw [isChecked])
  have shares : (after.definition id).SharesEnds (normalized.definition id) := by
    rw [isChecked]
    exact ⟨rfl, rfl, rfl, rfl⟩
  have sameName : (after.definition id).name = (normalized.definition id).name := by rw [isChecked]
  have bindingsAfter : (after.definition id).bindings = bindings := by rw [isChecked]
  rw [bindingsAfter]
  intro binding member
  obtain ⟨original, -, castRequired, accepted, rfl⟩ := exists_left_of_forall₂ checks binding member
  exact (Binding.check_congr (shares.mirrors interfaces) sameName rfl rfl rfl).trans accepted

/-! ## Parameters -/

theorem parameters_of_ran
    (ran : run frontEnd load name id .parameters before = (.ok (), after))
    (silent : after.log.errors = []) :
    ((before.definition id).parameters.map (·.name)).Nodup := by
  have agree : Agree reporting before
      ((repeatedBy FormalParameter.name [] (before.definition id).parameters).forM fun parameter =>
        Loading.recordError .duplicateName parameter.span
          ("duplicate parameter name '" ++ parameter.name ++ "'"))
      ((repeatedBy FormalParameter.name [] (before.definition id).parameters).forM fun parameter =>
        Loading.recordError .duplicateName parameter.span
          ("duplicate parameter name '" ++ parameter.name ++ "'"))
      fun _ reached => reached.log.errors = [] →
        ((before.definition id).parameters.map (·.name)).Nodup :=
    agree_forM_repeatedBy fun _ _ => Loading.agree_recordError _ _ _
  exact (agree.of_ok ran).2.2 silent

end Stage

/-- What the stages look for on a definition itself, its bindings and parameters apart, is there. -/
structure Definition.IsFormed (definition : Definition) : Prop where
  built : definition.Everywhere Annotations.AreBuilt
  merged : definition.decorations.extendsMerged = true
  granted : ∀ item ∈ definition.annotations.typed, item.phases.contains .afterExtends = true →
    definition.Grants item.directive
  interfaces : interfaceProblems [] definition.interfaces = []
  passed : definition.isComposite = true → definition.delegatedInterfaces = []
  first : ∀ external ∈ definition.interfaces, external.name = Membrane.componentInterface →
    definition.interfaces.head? = some external

/-! ## The passage -/

namespace Context

/-- The contexts that a definition passes on its way through the last stages. -/
structure Passage (frontEnd : FrontEnd) (load : String → Loading DefinitionId) (name : String)
    (id : DefinitionId) (middle extended marked complete bound parameterized typed before : Context) :
    Prop where
  making : Making name id middle
  ranExtends : Stage.run frontEnd load name id (.process .afterExtends) middle = (.ok (), extended)
  makingExtended : Making name id extended
  editedExtended : EditedAt name id middle extended
  ranMarked : Stage.run frontEnd load name id .subComponentAnnotations extended = (.ok (), marked)
  makingMarked : Making name id marked
  editedMarked : EditedAt name id extended marked
  ranMembrane : [.interfaces, .delegation, .membrane].forM (Stage.run frontEnd load name id) marked =
    (.ok (), complete)
  makingComplete : Making name id complete
  editedComplete : EditedAt name id marked complete
  ranBindings : [.expandBindings, .checkBindings, .coverage].forM (Stage.run frontEnd load name id)
    complete = (.ok (), bound)
  editedBound : EditedAt name id complete bound
  ranParameters : Stage.run frontEnd load name id .parameters bound = (.ok (), parameterized)
  editedParameterized : EditedAt name id bound parameterized
  makingTyped : Making name id typed
  editedTyped : EditedAt name id parameterized typed
  attributes : ∃ attributes, typed.definition id = { bound.definition id with attributes }
  ranLast : Stage.run frontEnd load name id (.process .afterChecking) typed = (.ok (), before)
  editedLast : EditedAt name id typed before
  decorations : ∃ decorations, before.definition id = { typed.definition id with decorations }

variable {frontEnd : FrontEnd} {strict : Prop}
  {origin middle extended marked complete bound parameterized typed before after : Context}
  {load : String → Loading DefinitionId} {name : String} {id : DefinitionId}

theorem ClosedOn.passage (predefined : frontEnd.registry = .predefined)
    (closed : ClosedOn frontEnd strict origin name id middle before after)
    (ordinary : (middle.definition id).IsOrdinary) :
    ∃ load extended marked complete bound parameterized typed,
      Passage frontEnd load name id middle extended marked complete bound parameterized typed
        before := by
  have harmless : frontEnd.registry.IsHarmless :=
    predefined ▸ AnnotationRegistry.isHarmless_predefined
  obtain ⟨load, ran⟩ := closed.ran
  obtain ⟨extended, ranExtends, ran⟩ := Stage.ran_cons ran
  obtain ⟨marked, ranMarked, ran⟩ := Stage.ran_cons ran
  obtain ⟨complete, ranMembrane, ran⟩ := Stage.ran_append [.interfaces, .delegation, .membrane] ran
  obtain ⟨bound, ranBindings, ran⟩ := Stage.ran_append [.expandBindings, .checkBindings, .coverage] ran
  obtain ⟨parameterized, ranParameters, ran⟩ := Stage.ran_cons ran
  obtain ⟨typed, ranAttributes, ran⟩ := Stage.ran_cons ran
  have ranLast := Stage.ran_singleton ran
  obtain ⟨makingExtended, editedExtended, -⟩ :=
    (AnnotationRegistry.agree_processStored harmless .afterExtends closed.making).of_ok ranExtends
  obtain ⟨makingMarked, editedMarked, -⟩ :=
    (AnnotationRegistry.agree_processStoredSubComponents harmless makingExtended).of_ok ranMarked
  obtain ⟨makingComplete, editedComplete, -⟩ := Stage.interfaces_of_ran makingMarked ranMembrane
  obtain ⟨makingBound, editedBound, -⟩ := Stage.bindings_of_ran makingComplete ranBindings
  obtain ⟨makingParameterized, editedParameterized, reports⟩ :=
    (agree_checkParameters makingBound).of_ok ranParameters
  obtain ⟨makingTyped, editedTyped, ⟨attributes, isTyped⟩, -⟩ :=
    (agree_settleAttributes makingParameterized).of_ok ranAttributes
  have edited := ((((editedExtended.trans editedMarked).trans editedComplete).trans
    editedBound).trans editedParameterized).trans editedTyped
  have last := ranLast
  change frontEnd.registry.processStored .afterChecking id typed = (.ok (), before) at last
  rw [predefined] at last
  obtain ⟨-, editedLast, decorated⟩ := (AnnotationRegistry.agree_processStored_last makingTyped
    (ordinary.edits edited.edits)).of_ok last
  exact ⟨load, extended, marked, complete, bound, parameterized, typed, {
    making := closed.making
    ranExtends, makingExtended, editedExtended, ranMarked, makingMarked, editedMarked, ranMembrane
    makingComplete, editedComplete, ranBindings, editedBound, ranParameters, editedParameterized
    makingTyped, editedTyped, ranLast, editedLast
    attributes := ⟨attributes, isTyped.trans (by rw [reports.definition])⟩
    decorations := decorated }⟩

namespace Passage

variable (passage : Passage frontEnd load name id middle extended marked complete bound parameterized
  typed before)

include passage

theorem editedOn : EditedAt name id marked before :=
  (((passage.editedComplete.trans passage.editedBound).trans passage.editedParameterized).trans
    passage.editedTyped).trans passage.editedLast

/-- What is due for controllers is granted. -/
theorem granted (predefined : frontEnd.registry = .predefined)
    (built : (middle.definition id).Everywhere Annotations.AreBuilt)
    (silent : before.log.errors = []) :
    ∀ item ∈ (before.definition id).annotations.typed, item.phases.contains .afterExtends = true →
      (before.definition id).Grants item.directive :=
  Stage.granted_of_ran predefined passage.making passage.ranExtends built
    (passage.editedMarked.trans passage.editedOn) silent

/-- The definition minds what its parts are. -/
theorem minds (predefined : frontEnd.registry = .predefined)
    (built : (middle.definition id).Everywhere Annotations.AreBuilt)
    (parts : ∀ index part, (before.definition id).part? index = some part →
      id ≠ part ∧ (before.definition part).Everywhere Annotations.AreBuilt) :
    AnnotationRegistry.MindsParts before (before.definition id) :=
  Stage.minds_of_ran predefined passage.makingExtended passage.ranMarked
    (built.edits Annotations.AreBuilt.survives passage.editedExtended.edits) passage.editedOn parts

/-- After the bindings, attributes and decorations change at most. -/
theorem last : ∃ attributes decorations,
    before.definition id = { bound.definition id with attributes, decorations } := by
  obtain ⟨attributes, isTyped⟩ := passage.attributes
  obtain ⟨decorations, isBefore⟩ := passage.decorations
  exact ⟨attributes, decorations, by rw [isBefore, isTyped]⟩

theorem editedAfterBound : EditedAt name id bound before :=
  (passage.editedParameterized.trans passage.editedTyped).trans passage.editedLast

theorem passed (silent : before.log.errors = [])
    (composite : (before.definition id).isComposite = true) :
    (before.definition id).delegatedInterfaces = [] := by
  obtain ⟨attributes, decorations, isBefore⟩ := passage.last
  obtain ⟨-, -, bindings⟩ := Stage.bindings_of_ran passage.makingComplete passage.ranBindings
  obtain ⟨⟨rebound, isBound⟩, -⟩ := bindings (passage.editedAfterBound.silent silent)
  have edited := passage.editedBound.trans passage.editedAfterBound
  refine edited.edits.delegatedInterfaces ?_ ?_
    (Stage.passed_of_ran passage.makingMarked passage.ranMembrane ?_)
  · rw [isBefore, isBound]
    exact List.Subset.refl _
  · rw [isBefore, isBound]
    exact List.Subset.refl _
  · rw [Definition.isComposite, ← edited.edits.kind]
    exact composite

theorem first (silent : before.log.errors = []) :
    ∀ external ∈ (before.definition id).interfaces, external.name = Membrane.componentInterface →
      (before.definition id).interfaces.head? = some external := by
  obtain ⟨attributes, decorations, isBefore⟩ := passage.last
  obtain ⟨-, -, bindings⟩ := Stage.bindings_of_ran passage.makingComplete passage.ranBindings
  obtain ⟨⟨rebound, isBound⟩, -⟩ := bindings (passage.editedAfterBound.silent silent)
  rw [isBefore, isBound]
  exact Stage.first_of_ran passage.makingMarked passage.ranMembrane
    ((passage.editedBound.trans passage.editedAfterBound).silent silent)

theorem checked (silent : before.log.errors = []) :
    ∀ binding ∈ (before.definition id).bindings, binding.check (before.definition id) before
      frontEnd.signatureExtends = .ok binding.castRequired := by
  obtain ⟨attributes, decorations, isBefore⟩ := passage.last
  have interfaces := passage.editedAfterBound.sharesInterfaces (by rw [isBefore])
  have shares : (before.definition id).SharesEnds (bound.definition id) := by
    rw [isBefore]
    exact ⟨rfl, rfl, rfl, rfl⟩
  have sameName : (before.definition id).name = (bound.definition id).name := by rw [isBefore]
  have bindings : (before.definition id).bindings = (bound.definition id).bindings := by rw [isBefore]
  obtain ⟨checked, ranFirst, ran⟩ := Stage.ran_append [.expandBindings, .checkBindings] passage.ranBindings
  obtain ⟨makingChecked, -, -⟩ := Stage.accepted_of_ran passage.makingComplete ranFirst
  obtain ⟨-, -, rfl, -⟩ := (agree_requireBound makingChecked).of_ok (Stage.ran_singleton ran)
  rw [bindings]
  intro binding member
  exact (Binding.check_congr (shares.mirrors interfaces) sameName rfl rfl rfl).trans
    (Stage.checks_of_ran passage.makingComplete ranFirst
      (passage.editedAfterBound.silent silent) binding member)

theorem parameters (silent : before.log.errors = []) :
    ((before.definition id).parameters.map (·.name)).Nodup := by
  obtain ⟨attributes, decorations, isBefore⟩ := passage.last
  rw [isBefore]
  exact Stage.parameters_of_ran passage.ranParameters
    ((passage.editedTyped.trans passage.editedLast).silent silent)

/-- A singleton holds no other one twice. -/
theorem singles (predefined : frontEnd.registry = .predefined)
    (ordinary : (middle.definition id).IsOrdinary)
    (parts : ∀ index part, (before.definition id).part? index = some part → id ≠ part)
    (silent : before.log.errors = [])
    (member : .singleton ∈ (before.definition id).annotations.typed) :
    (before.definition id).decorations.singleton = true ∧
      Singleton.duplicates before .empty (before.definition id).resolvedComponents = [] := by
  have ran := passage.ranLast
  change frontEnd.registry.processStored .afterChecking id typed = (.ok (), before) at ran
  rw [predefined] at ran
  have edited := (((passage.editedExtended.trans passage.editedMarked).trans
    (passage.editedComplete.trans passage.editedBound)).trans passage.editedParameterized).trans
      passage.editedTyped
  obtain ⟨-, -, settles⟩ := (AnnotationRegistry.agree_processStored_settles passage.makingTyped
    (ordinary.edits edited.edits)).of_ok ran
  obtain ⟨decorations, isBefore⟩ := passage.decorations
  have annotations : (before.definition id).annotations = (typed.definition id).annotations := by
    rw [isBefore]
  have resolved : (before.definition id).resolvedComponents =
      (typed.definition id).resolvedComponents := by
    rw [isBefore]
    rfl
  obtain ⟨decorated, none⟩ := settles (annotations ▸ member)
  refine ⟨decorated, ?_⟩
  rw [← none silent, ← resolved]
  refine Singleton.duplicates_congr (fun part among => ?_) _
  obtain ⟨component, listed, designates⟩ := List.mem_filterMap.mp among
  obtain ⟨index, found⟩ := List.mem_iff_getElem?.mp listed
  obtain ⟨target, isTarget, rfl⟩ := Option.map_eq_some_iff.mp designates
  refine passage.editedLast.definition_of_ne (parts index target ?_)
  rw [Definition.part?, found]
  exact isTarget

end Passage

/-- The last stages leave a definition as they look for it. -/
theorem ClosedOn.isFormed (predefined : frontEnd.registry = .predefined)
    (closed : ClosedOn frontEnd strict origin name id middle before after)
    (built : (middle.definition id).Everywhere Annotations.AreBuilt)
    (silent : before.log.errors = []) : (before.definition id).IsFormed := by
  have ordinary : (middle.definition id).IsOrdinary :=
    Definition.isOrdinary_iff.mpr (built.mono fun _ _ built => built.isPredefined)
  obtain ⟨load, extended, marked, complete, bound, parameterized, typed, passage⟩ :=
    closed.passage predefined ordinary
  have edits := (closed.edited (predefined ▸ AnnotationRegistry.isHarmless_predefined)).edits
  obtain ⟨earlier, -, grew⟩ := closed.grew
  have wired := closed.wired predefined ordinary silent
  exact {
    built := built.edits Annotations.AreBuilt.survives edits
    merged := edits.keeps.extendsMerged.trans grew.merged
    granted := passage.granted predefined built silent
    interfaces := interfaceProblems_of_sized wired.sized (fun _ _ => List.not_mem_nil) wired.distinct
    passed := passage.passed silent
    first := passage.first silent }

/-- They leave a settled one, if it has a membrane of its own and is not a part of itself. -/
theorem ClosedOn.isSettled (predefined : frontEnd.registry = .predefined)
    (closed : ClosedOn frontEnd strict origin name id middle before after)
    (built : (middle.definition id).Everywhere Annotations.AreBuilt)
    (parts : ∀ index part, (before.definition id).part? index = some part →
      id ≠ part ∧ (before.definition part).Everywhere Annotations.AreBuilt)
    (passes : (middle.definition id).PassesThrough) (twinned : (middle.definition id).IsTwinned)
    (silent : before.log.errors = []) :
    (before.definition id).IsSettled frontEnd.signatureExtends before := by
  have ordinary : (middle.definition id).IsOrdinary :=
    Definition.isOrdinary_iff.mpr (built.mono fun _ _ built => built.isPredefined)
  obtain ⟨load, extended, marked, complete, bound, parameterized, typed, passage⟩ :=
    closed.passage predefined ordinary
  have formed := closed.isFormed predefined built silent
  have wired := closed.wired predefined ordinary silent
  have membrane := closed.hasMembrane predefined ordinary passes twinned silent
  exact {
    built := formed.built
    merged := formed.merged
    granted := formed.granted
    minds := passage.minds predefined built parts
    interfaces := formed.interfaces
    passed := formed.passed
    complete := Definition.membraneProblem?_eq_none membrane.known membrane.used membrane.implemented
    first := Definition.componentInterfaceFirst_of_first formed.first
    expanded := wired.expanded
    single := wired.single
    checked := passage.checked silent
    covered := wired.covered
    parameters := passage.parameters silent
    singles := passage.singles predefined ordinary (fun index part isPart =>
      (parts index part isPart).1) silent }

/-- What is a part of a closed definition was loaded by then, and stays as it was. -/
theorem ClosedOn.part (sound : after.Sound True)
    (closed : ClosedOn frontEnd True origin name id middle before after) {part : DefinitionId}
    (contains : after.Contains id part) :
    after.LoadedBy part id ∧ id ≠ part ∧ after.definition part = before.definition part := by
  obtain ⟨known, found⟩ := closed.loaded
  obtain ⟨place, within, entry⟩ := List.getElem_of_mem (Table.mem_entries_of_find? found)
  have isLast := entry ▸ List.getElem?_eq_getElem within
  obtain ⟨first, less, other, isFirst⟩ := sound.earlier_of_contains contains isLast
  have isBy : after.LoadedBy part id :=
    ⟨first, place, other, known, Nat.le_of_lt less, isFirst, isLast⟩
  refine ⟨isBy, ?_, closed.definition_of_loadedBy sound isBy⟩
  rintro rfl
  exact sound.acyclic id (.single contains)

end Context

/-! ## Compilations -/

/-- A definition that is annotated by simple names, and to which loading added nothing yet. -/
structure Definition.IsFresh (definition : Definition) : Prop where
  annotated : definition.IsPlainlyAnnotated
  undecorated : ∀ component ∈ definition.components, component.resolved = none
  internalInterfaces : definition.internalInterfaces = []
  controllers : definition.controllers = []

instance (definition : Definition) : Decidable definition.IsFresh :=
  decidable_of_iff (definition.IsPlainlyAnnotated ∧
      (∀ component ∈ definition.components, component.resolved = none) ∧
      definition.internalInterfaces.length = 0 ∧ definition.controllers.length = 0)
    ⟨fun ⟨annotated, undecorated, internalInterfaces, controllers⟩ => ⟨annotated, undecorated,
      List.length_eq_zero_iff.mp internalInterfaces, List.length_eq_zero_iff.mp controllers⟩,
    fun fresh => ⟨fresh.annotated, fresh.undecorated,
      List.length_eq_zero_iff.mpr fresh.internalInterfaces,
      List.length_eq_zero_iff.mpr fresh.controllers⟩⟩

theorem Definition.Presents.of_same {restored original : Definition} (same : restored = original) :
    restored.Presents original :=
  same ▸ ⟨rfl, rfl, rfl, rfl⟩

namespace FrontEnd

/-- What a successful compilation loads has its annotations built, where these bear simple names. -/
theorem areBuilt_of_path {frontEnd : FrontEnd} {options : Options} {definitions : List Definition}
    {strict : Prop} {reached : Context} (harmless : frontEnd.registry.IsHarmless)
    (annotated : ∀ definition, definition ∈ definitions ∨ frontEnd.Parses definition →
      definition.IsPlainlyAnnotated)
    (path : Path frontEnd strict (.ofDefinitions options definitions) reached)
    (silent : reached.log.errors = []) :
    ∀ id, reached.Loaded id → (reached.definition id).Everywhere Annotations.AreBuilt := by
  refine path.areBuilt harmless (hasSlots_ofDefinitions options definitions)
    (not_loaded_ofDefinitions options definitions) (fun path silent id => ?_) silent
  exact (Annotations.survives_areNamed.preserves fun definition parsed =>
    (annotated definition (.inr parsed)).areNamed).maintains.ofDefinitions
      (fun definition member => (annotated definition (.inl member)).areNamed) path silent id

/-- It has them built from the last stages on. -/
theorem built_of_closed {frontEnd : FrontEnd} {options : Options} {definitions : List Definition}
    {strict : Prop} {name : String} {id : DefinitionId} {middle before after : Context}
    (harmless : frontEnd.registry.IsHarmless)
    (annotated : ∀ definition, definition ∈ definitions ∨ frontEnd.Parses definition →
      definition.IsPlainlyAnnotated)
    (closed : ClosedOn frontEnd strict (.ofDefinitions options definitions) name id middle before after)
    (silent : middle.log.errors = []) :
    (middle.definition id).Everywhere Annotations.AreBuilt := by
  obtain ⟨earlier, path, grew⟩ := closed.grew
  refine grew.areBuilt ?_ (areBuilt_of_path harmless annotated closed.path silent) silent
  exact (Annotations.survives_areNamed.preserves fun definition parsed =>
    (annotated definition (.inr parsed)).areNamed).maintains.ofDefinitions
      (fun definition member => (annotated definition (.inl member)).areNamed) path
      (List.prefix_nil.mp (silent ▸ grew.errors)) id

/-- What a successful compilation of fresh definitions loads is settled. -/
theorem settled_of_compile {frontEnd : FrontEnd} {options : Options} {definitions : List Definition}
    {roots : List String} {compiled : Compiled} (predefined : frontEnd.registry = .predefined)
    (plain : frontEnd.ParsesPlainly)
    (fresh : ∀ definition, definition ∈ definitions ∨ frontEnd.Parses definition → definition.IsFresh)
    (succeeds : (frontEnd.compile (.ofDefinitions options definitions) roots).outcome = .ok compiled)
    {id : DefinitionId} (loaded : compiled.context.Loaded id)
    (free : ∀ parameter ∈ (compiled.context.definition id).typeParameters,
      parameter.conformsTo = none) :
    (compiled.context.definition id).IsSettled frontEnd.signatureExtends compiled.context := by
  have harmless : frontEnd.registry.IsHarmless :=
    predefined ▸ AnnotationRegistry.isHarmless_predefined
  have undecorated : ∀ definition ∈ definitions, ∀ component ∈ definition.components,
      component.resolved = none := fun definition member => (fresh definition (.inl member)).undecorated
  have annotated := fun definition known => (fresh definition known).annotated
  obtain ⟨sound, -, -⟩ := advances_compile harmless (fun _ : True => plain) roots
    (sound_ofDefinitions options definitions fun _ => undecorated) succeeds
  obtain ⟨silent, way, closedOn⟩ := closedOn_of_compile harmless (fun _ : True => plain)
    (fun _ => undecorated) succeeds
  obtain ⟨name, middle, before, closed⟩ := closedOn id loaded
  have silentBefore := closed.silent silent
  have silentMiddle := (closed.edited harmless).silent silentBefore
  have everywhere : ∀ {Holds : Definition → Prop}, frontEnd.Preserves Holds →
      (∀ definition ∈ definitions, Holds definition) → Holds (middle.definition id) :=
    fun preserves registered => preserves.maintains.ofDefinitions registered closed.path silentMiddle id
  have built := built_of_closed harmless annotated closed silentMiddle
  have passes : (middle.definition id).PassesThrough :=
    everywhere (preserves_passesThrough fun definition parsed =>
      (fresh definition (.inr parsed)).controllers) fun definition member _ among =>
        nomatch (fresh definition (.inl member)).controllers ▸ among
  have twinned : (middle.definition id).IsTwinned :=
    everywhere (preserves_isTwinned fun definition parsed =>
      (fresh definition (.inr parsed)).internalInterfaces) fun definition member =>
        .of_none (fresh definition (.inl member)).internalInterfaces
  have settled : (compiled.context.definition id).IsSettled frontEnd.signatureExtends before := by
    rw [closed.definition]
    refine closed.isSettled predefined built (fun index part isPart => ?_) passes twinned silentBefore
    rw [← closed.definition] at isPart
    obtain ⟨component, found, designates⟩ := Option.bind_eq_some_iff.mp isPart
    obtain ⟨loadedBy, different, same⟩ :=
      closed.part sound ⟨loaded, component, List.mem_of_getElem? found, designates⟩
    exact ⟨different,
      same ▸ areBuilt_of_path harmless annotated way silent part (loadedBy.loaded sound)⟩
  refine settled.restored ⟨rfl, rfl, List.forall₂_same.mpr fun component member => ?_, free, free⟩
  refine ⟨rfl, rfl, rfl, rfl, ?_⟩
  cases designates : component.resolvedId? with
  | none => exact .none
  | some part =>
      exact .some (.of_same (closed.part sound ⟨loaded, component, member, designates⟩).2.2)

end FrontEnd

end Adl
