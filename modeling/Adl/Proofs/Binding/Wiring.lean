import Adl.Proofs.Annotation.Ordinary
import Adl.Proofs.Binding.Endpoints
import Adl.Proofs.Definition.Interfaces
import Adl.Proofs.Loading.Closing

namespace Adl

open Step Context

/-! What the last stages establish about the bindings of a definition. Each stage establishes its
part for what it leaves, and those after it change nothing that this depends on. -/

/-- An interface of which the number of elements is known. -/
def Interface.IsSized (interface : Interface) : Prop :=
  interface.cardinality ≠ .collection none

theorem sized_of_no_problems {seen : List String} {interfaces : List Interface}
    (silent : interfaceProblems seen interfaces = []) :
    (∀ interface ∈ interfaces, interface.IsSized ∧ interface.name ∉ seen) ∧
      (interfaces.map (·.name)).Nodup := by
  induction interfaces generalizing seen with
  | nil => exact ⟨nofun, .nil⟩
  | cons interface rest induction =>
      unfold interfaceProblems at silent
      obtain ⟨problems, others⟩ := List.append_eq_nil_iff.mp silent
      obtain ⟨unrepeated, measured⟩ := List.append_eq_nil_iff.mp problems
      have isNew : interface.name ∉ seen := by
        intro known
        simp [known] at unrepeated
      have isSized : interface.IsSized := by
        intro unknown
        simp [unknown] at measured
      obtain ⟨sized, distinct⟩ := induction others
      refine ⟨fun other member => ?_, List.nodup_cons.mpr ⟨fun among => ?_, distinct⟩⟩
      · rcases List.mem_cons.mp member with rfl | member
        · exact ⟨isSized, isNew⟩
        · exact ⟨(sized other member).1, fun known =>
            (sized other member).2 (List.mem_cons_of_mem _ known)⟩
      · obtain ⟨other, member, same⟩ := List.mem_map.mp among
        exact (sized other member).2 (same ▸ List.mem_cons_self)

namespace Definition

/-- The definition came through the checks of interfaces and bindings. -/
structure Wired (extends? : String → String → Bool) (context : Context)
    (definition : Definition) : Prop where
  sized : ∀ interface ∈ definition.interfaces, interface.IsSized
  distinct : (definition.interfaces.map (·.name)).Nodup
  accepted : ∀ binding ∈ definition.bindings,
    binding.Accepts extends? definition context binding.castRequired
  expanded : ∀ binding ∈ definition.bindings, definition.expansion? context binding = none
  single : (definition.bindings.map (·.id)).Nodup
  covered : definition.isComposite = true → definition.isAbstract = false →
    definition.unbound context = []

/-- A binding that stands for others is not expanded again. -/
theorem expansion?_of_mem_expandedBindings {definition : Definition} {context : Context}
    {binding : Binding} (member : binding ∈ definition.expandedBindings context) :
    definition.expansion? context binding = none := by
  obtain ⟨original, among, expanded⟩ := List.mem_flatMap.mp member
  unfold expandBinding at expanded
  split at expanded
  · obtain ⟨index, -, rfl⟩ := List.mem_map.mp expanded
    rfl
  · rename_i whole
    rwa [List.mem_singleton.mp expanded]

end Definition

namespace Context

variable {frontEnd : FrontEnd} {origin middle before after : Context} {name : String}
  {id : DefinitionId}

/-- Interfaces are the same after a step that leaves those of one definition alone. -/
theorem EditedAt.sharesInterfaces {reached : Context} (edited : EditedAt name id before reached)
    (same : (reached.definition id).interfaces = (before.definition id).interfaces) :
    reached.SharesInterfaces before := by
  intro other
  by_cases own : id = other
  · exact own ▸ same
  · rw [edited.definition_of_ne own]

end Context

namespace Stage

variable {frontEnd : FrontEnd} {load : String → Loading DefinitionId} {name : String}
  {id : DefinitionId} {before after : Context}

/-- Nothing is wrong with the interfaces once they were checked, nor after the delegation. -/
theorem declared_of_ran (making : Making name id before)
    (ran : [.interfaces, .delegation].forM (run frontEnd load name id) before = (.ok (), after)) :
    Making name id after ∧ EditedAt name id before after ∧ (after.log.errors = [] →
      interfaceProblems [] (after.definition id).interfaces = []) := by
  obtain ⟨checked, ranInterfaces, ran⟩ := ran_cons ran
  have ranDelegation := ran_singleton ran
  obtain ⟨makingChecked, editedChecked, reports, declared⟩ :=
    (agree_checkInterfaces making).of_ok ranInterfaces
  obtain ⟨makingAfter, editedAfter, delegation⟩ :=
    (agree_delegateInterfaces makingChecked).of_ok ranDelegation
  refine ⟨makingAfter, editedChecked.trans editedAfter, fun silent => ?_⟩
  have same : (after.definition id).interfaces = (before.definition id).interfaces := by
    rw [← reports.definition]
    rcases delegation with ⟨same, -⟩ | made
    · rw [same]
    · obtain ⟨_, _, _, changed⟩ := Definition.withDelegator_eq made
      rw [changed]
  rw [same]
  exact declared (editedAfter.silent silent)

/-- Interfaces are sized and have different names once the membrane is complete. -/
theorem interfaces_of_ran (making : Making name id before)
    (ran : [.interfaces, .delegation, .membrane].forM (run frontEnd load name id) before =
      (.ok (), after)) :
    Making name id after ∧ EditedAt name id before after ∧ (after.log.errors = [] →
      (∀ interface ∈ (after.definition id).interfaces, interface.IsSized) ∧
        ((after.definition id).interfaces.map (·.name)).Nodup) := by
  obtain ⟨delegated, ranFirst, ran⟩ := ran_append [.interfaces, .delegation] ran
  obtain ⟨makingDelegated, editedDelegated, declared⟩ := declared_of_ran making ranFirst
  obtain ⟨makingAfter, editedAfter, -, ordered⟩ :=
    (agree_completeMembrane makingDelegated).of_ok (ran_singleton ran)
  refine ⟨makingAfter, editedDelegated.trans editedAfter, fun silent => ?_⟩
  obtain ⟨sized, distinct⟩ := sized_of_no_problems (declared (editedAfter.silent silent))
  obtain ⟨interfaces, perm, -, ordering⟩ := (delegated.definition id).componentInterfaceFirst_eq
  rw [ordered, ordering]
  exact ⟨fun interface member => (sized interface (perm.subset member)).1,
    (perm.map _).nodup_iff.mpr distinct⟩

theorem expanded_of_ran (making : Making name id before)
    (ran : run frontEnd load name id .expandBindings before = (.ok (), after))
    (silent : after.log.errors = []) :
    ∃ bindings, after.definition id = { before.definition id with bindings } ∧
      (bindings.map (·.id)).Nodup ∧ ∀ binding ∈ bindings,
        (before.definition id).expansion? before binding = none := by
  obtain ⟨-, -, ⟨rfl, none⟩ | ⟨reported, -, normalizes, log⟩⟩ :=
    (agree_onBindings making (agree_normalizeBindings _)).of_ok ran
  · refine ⟨(after.definition id).bindings, rfl, ?_, ?_⟩ <;> rw [none]
    · exact .nil
    · exact nofun
  · obtain ⟨expanded, distinct⟩ := normalizes ((congrArg _ log).symm.trans silent)
    refine ⟨_, expanded, ?_, fun binding => Definition.expansion?_of_mem_expandedBindings⟩
    rwa [expanded] at distinct

theorem checked_of_ran (making : Making name id before)
    (ran : run frontEnd load name id .checkBindings before = (.ok (), after))
    (silent : after.log.errors = []) :
    ∃ bindings, after.definition id = { before.definition id with bindings } ∧
      List.Forall₂ (Binding.Checks frontEnd.signatureExtends (before.definition id) before)
        (before.definition id).bindings bindings := by
  obtain ⟨-, -, ⟨rfl, none⟩ | ⟨reported, -, checks, log⟩⟩ :=
    (agree_onBindings making (agree_checkBindings _ _)).of_ok ran
  · refine ⟨(after.definition id).bindings, rfl, ?_⟩
    rw [none]
    exact .nil
  · exact checks ((congrArg _ log).symm.trans silent)

/-- The bindings are expanded and checked after the first two of their stages. -/
theorem accepted_of_ran (making : Making name id before)
    (ran : [.expandBindings, .checkBindings].forM (run frontEnd load name id) before =
      (.ok (), after)) :
    Making name id after ∧ EditedAt name id before after ∧ (after.log.errors = [] →
      (∃ bindings, after.definition id = { before.definition id with bindings }) ∧
      (∀ binding ∈ (after.definition id).bindings, binding.Accepts frontEnd.signatureExtends
        (after.definition id) after binding.castRequired) ∧
      (∀ binding ∈ (after.definition id).bindings,
        (after.definition id).expansion? after binding = none) ∧
      ((after.definition id).bindings.map (·.id)).Nodup) := by
  obtain ⟨normalized, ranExpand, ran⟩ := ran_cons ran
  have ranCheck := ran_singleton ran
  obtain ⟨makingNormalized, editedNormalized, -⟩ :=
    (agree_onBindings making (agree_normalizeBindings _)).of_ok ranExpand
  obtain ⟨makingChecked, editedChecked, -⟩ :=
    (agree_onBindings makingNormalized (agree_checkBindings _ _)).of_ok ranCheck
  refine ⟨makingChecked, editedNormalized.trans editedChecked, fun silent => ?_⟩
  obtain ⟨expanded, isExpanded, distinct, whole⟩ :=
    expanded_of_ran making ranExpand (editedChecked.silent silent)
  obtain ⟨bindings, isChecked, checks⟩ := checked_of_ran makingNormalized ranCheck silent
  have interfacesNormalized : normalized.SharesInterfaces before :=
    editedNormalized.sharesInterfaces (by rw [isExpanded])
  have interfaces : after.SharesInterfaces normalized :=
    editedChecked.sharesInterfaces (by rw [isChecked])
  have sharesNormalized : (normalized.definition id).SharesEnds (before.definition id) := by
    rw [isExpanded]
    exact ⟨rfl, rfl, rfl, rfl⟩
  have shares : (after.definition id).SharesEnds (normalized.definition id) := by
    rw [isChecked]
    exact ⟨rfl, rfl, rfl, rfl⟩
  have bindingsNormalized : (normalized.definition id).bindings = expanded := by rw [isExpanded]
  have bindingsAfter : (after.definition id).bindings = bindings := by rw [isChecked]
  rw [bindingsNormalized] at checks
  refine ⟨⟨bindings, by rw [isChecked, isExpanded]⟩, ?_, ?_, ?_⟩ <;> rw [bindingsAfter]
  · intro binding member
    obtain ⟨original, -, castRequired, accepted, same⟩ := exists_left_of_forall₂ checks binding member
    exact (Binding.accepts_of_check accepted).shares shares interfaces same
  · intro binding member
    obtain ⟨original, among, castRequired, -, rfl⟩ := exists_left_of_forall₂ checks binding member
    rw [(shares.mirrors interfaces).expansion? rfl rfl,
      (sharesNormalized.mirrors interfacesNormalized).expansion? rfl rfl]
    exact whole original among
  · have same : bindings.map (·.id) = expanded.map (·.id) := by
      clear isChecked bindingsAfter distinct whole isExpanded bindingsNormalized
      induction checks with
      | nil => rfl
      | cons first _ induction =>
          obtain ⟨castRequired, -, rfl⟩ := first
          rw [List.map_cons, List.map_cons, induction]
          rfl
    exact same ▸ distinct

/-- The bindings are expanded, checked and complete after their stages. -/
theorem bindings_of_ran (making : Making name id before)
    (ran : [.expandBindings, .checkBindings, .coverage].forM (run frontEnd load name id) before =
      (.ok (), after)) :
    Making name id after ∧ EditedAt name id before after ∧ (after.log.errors = [] →
      (∃ bindings, after.definition id = { before.definition id with bindings }) ∧
      (∀ binding ∈ (after.definition id).bindings, binding.Accepts frontEnd.signatureExtends
        (after.definition id) after binding.castRequired) ∧
      (∀ binding ∈ (after.definition id).bindings,
        (after.definition id).expansion? after binding = none) ∧
      ((after.definition id).bindings.map (·.id)).Nodup ∧
      ((after.definition id).isComposite = true → (after.definition id).isAbstract = false →
        (after.definition id).unbound after = [])) := by
  obtain ⟨checked, ranFirst, ran⟩ := ran_append [.expandBindings, .checkBindings] ran
  obtain ⟨makingChecked, edited, bindings⟩ := accepted_of_ran making ranFirst
  obtain ⟨-, -, rfl, covered⟩ := (agree_requireBound makingChecked).of_ok (ran_singleton ran)
  refine ⟨makingChecked, edited, fun silent => ?_⟩
  obtain ⟨isBound, accepted, expanded, distinct⟩ := bindings silent
  exact ⟨isBound, accepted, expanded, distinct, covered⟩

/-- After the bindings, attributes and decorations change at most, if the annotations are
predefined. -/
theorem last_of_ran (predefined : frontEnd.registry = .predefined) (making : Making name id before)
    (ordinary : (before.definition id).IsOrdinary)
    (ran : [.parameters, .attributes, .process .afterChecking].forM (run frontEnd load name id) before =
      (.ok (), after)) :
    EditedAt name id before after ∧ ∃ attributes decorations,
      after.definition id = { before.definition id with attributes, decorations } := by
  obtain ⟨parameterized, ranParameters, ran⟩ := ran_cons ran
  obtain ⟨settled, ranAttributes, ran⟩ := ran_cons ran
  have ranLast := ran_singleton ran
  obtain ⟨makingParameterized, editedParameterized, reports⟩ :=
    (agree_checkParameters making).of_ok ranParameters
  obtain ⟨makingSettled, editedSettled, ⟨attributes, isSettled⟩, -⟩ :=
    (agree_settleAttributes makingParameterized).of_ok ranAttributes
  have edited := editedParameterized.trans editedSettled
  change frontEnd.registry.processStored .afterChecking id settled = (.ok (), after) at ranLast
  rw [predefined] at ranLast
  obtain ⟨-, editedLast, decorations, isLast⟩ := (AnnotationRegistry.agree_processStored_last
    makingSettled (ordinary.edits edited.edits)).of_ok ranLast
  exact ⟨edited.trans editedLast, attributes, decorations,
    by rw [isLast, isSettled, reports.definition]⟩

end Stage

namespace Definition

variable {extends? : String → String → Bool} {before after : Context}
  {definition changed : Definition}

/-- Other attributes and decorations do not matter. -/
theorem Wired.later (wired : definition.Wired extends? before) (attributes : List Attribute)
    (decorations : Decorations) (changes : changed = { definition with attributes, decorations })
    (interfaces : after.SharesInterfaces before) : changed.Wired extends? after := by
  have shares : changed.SharesEnds definition := by
    rw [changes]
    exact ⟨rfl, rfl, rfl, rfl⟩
  have bindings : changed.bindings = definition.bindings := by rw [changes]
  refine ⟨?_, ?_, ?_, ?_, ?_, ?_⟩
  · exact shares.interfaces ▸ wired.sized
  · exact shares.interfaces ▸ wired.distinct
  · rw [bindings]
    exact fun binding member => (wired.accepted binding member).shares shares interfaces rfl
  · rw [bindings]
    intro binding member
    rw [(shares.mirrors interfaces).expansion? rfl rfl]
    exact wired.expanded binding member
  · exact bindings ▸ wired.single
  · intro composite concrete
    rw [(shares.mirrors interfaces).unbound (congrArg (List.map (·.client)) bindings)]
    subst changes
    exact wired.covered composite concrete

end Definition

namespace Context

variable {frontEnd : FrontEnd} {strict : Prop} {origin middle before after : Context} {name : String}
  {id : DefinitionId}

/-- The last stages complete the membrane and settle the bindings. After that they change
attributes and decorations at most, if the annotations are predefined. -/
theorem ClosedOn.stages (predefined : frontEnd.registry = .predefined)
    (closed : ClosedOn frontEnd strict origin name id middle before after)
    (ordinary : (middle.definition id).IsOrdinary) :
    ∃ load extended complete bound,
      Making name id extended ∧ EditedAt name id middle extended ∧
      [.interfaces, .delegation, .membrane].forM (Stage.run frontEnd load name id) extended =
        (.ok (), complete) ∧
      [.expandBindings, .checkBindings, .coverage].forM (Stage.run frontEnd load name id) complete =
        (.ok (), bound) ∧
      EditedAt name id bound before ∧ ∃ attributes decorations,
        before.definition id = { bound.definition id with attributes, decorations } := by
  have harmless : frontEnd.registry.IsHarmless :=
    predefined ▸ AnnotationRegistry.isHarmless_predefined
  obtain ⟨load, ran⟩ := closed.ran
  obtain ⟨extended, ranFirst, ran⟩ := Stage.ran_append
    [.process .afterExtends, .subComponentAnnotations] ran
  obtain ⟨delegated, ranInterfaces, ran⟩ := Stage.ran_append
    [.interfaces, .delegation, .membrane] ran
  obtain ⟨bound, ranBindings, ran⟩ := Stage.ran_append
    [.expandBindings, .checkBindings, .coverage] ran
  obtain ⟨makingExtended, editedExtended⟩ :=
    Stage.edited_of_runOthers harmless (by decide) closed.making ranFirst
  obtain ⟨makingDelegated, editedDelegated, -⟩ :=
    Stage.interfaces_of_ran makingExtended ranInterfaces
  obtain ⟨makingBound, editedBound, -⟩ := Stage.bindings_of_ran makingDelegated ranBindings
  have edits := ((editedExtended.trans editedDelegated).trans editedBound).edits
  exact ⟨load, extended, delegated, bound, makingExtended, editedExtended, ranInterfaces, ranBindings,
    Stage.last_of_ran predefined makingBound (ordinary.edits edits) ran⟩

/-- The last stages wire what they close. -/
theorem ClosedOn.wired (predefined : frontEnd.registry = .predefined)
    (closed : ClosedOn frontEnd strict origin name id middle before after)
    (ordinary : (middle.definition id).IsOrdinary) (silent : before.log.errors = []) :
    (before.definition id).Wired frontEnd.signatureExtends before := by
  obtain ⟨load, extended, complete, bound, makingExtended, -, ranInterfaces, ranBindings, editedBefore,
    attributes, decorations, isBefore⟩ := closed.stages predefined ordinary
  obtain ⟨makingComplete, -, interfaces⟩ := Stage.interfaces_of_ran makingExtended ranInterfaces
  obtain ⟨-, editedBound, bindings⟩ := Stage.bindings_of_ran makingComplete ranBindings
  have silentBound := editedBefore.silent silent
  obtain ⟨sized, distinct⟩ := interfaces (editedBound.silent silentBound)
  obtain ⟨⟨rebound, isBound⟩, accepted, expanded, single, covered⟩ := bindings silentBound
  have sameInterfaces : (bound.definition id).interfaces = (complete.definition id).interfaces := by
    rw [isBound]
  have wired : (bound.definition id).Wired frontEnd.signatureExtends bound :=
    ⟨sameInterfaces ▸ sized, sameInterfaces ▸ distinct, accepted, expanded, single, covered⟩
  exact wired.later attributes decorations isBefore (editedBefore.sharesInterfaces (by rw [isBefore]))

end Context

/-- Where registered and parsed definitions declare no internal interfaces and bear predefined
annotations only, all that a successful compilation loads was wired when it was remembered. -/
theorem FrontEnd.wired_of_compile {frontEnd : FrontEnd} {options : Options}
    {definitions : List Definition} {roots : List String} {compiled : Compiled}
    (predefined : frontEnd.registry = .predefined)
    (plain : ∀ definition, definition ∈ definitions ∨ frontEnd.Parses definition →
      definition.internalInterfaces = [] ∧ definition.IsOrdinary)
    (succeeds : (frontEnd.compile (.ofDefinitions options definitions) roots).outcome =
      .ok compiled) {id : DefinitionId} (loaded : compiled.context.Loaded id) :
    (compiled.context.definition id).IsTwinned ∧ ∃ name middle before,
      ClosedOn frontEnd False (.ofDefinitions options definitions) name id middle before
          compiled.context ∧
        (∀ other, (compiled.context.definition other).Offers (before.definition other)) ∧
        (compiled.context.definition id).Wired frontEnd.signatureExtends before := by
  have harmless : frontEnd.registry.IsHarmless :=
    predefined ▸ AnnotationRegistry.isHarmless_predefined
  obtain ⟨silent, path, closedOn⟩ := closedOn_of_compile harmless
    (fun never : False => never.elim) False.elim succeeds
  have twinned := (preserves_isTwinned fun definition parsed =>
    (plain definition (.inr parsed)).1).maintains.ofDefinitions
      (fun definition member => .of_none (plain definition (.inl member)).1) path silent id
  obtain ⟨name, middle, before, closed⟩ := closedOn id loaded
  have silentBefore := closed.silent silent
  have silentMiddle := (closed.edited harmless).silent silentBefore
  have ordinary := (preserves_isOrdinary fun definition parsed =>
    (plain definition (.inr parsed)).2).maintains.ofDefinitions
      (fun definition member => (plain definition (.inl member)).2) closed.path silentMiddle id
  exact ⟨twinned, name, middle, before, closed, closed.offers silent,
    closed.definition ▸ closed.wired predefined ordinary silentBefore⟩

end Adl
