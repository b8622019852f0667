import Adl.Proofs.Loading.Diamonds
import Adl.Proofs.Loading.Endurance
import Adl.Proofs.Loading.Retention
import Adl.Proofs.Loading.Settling

namespace Adl

open Step Context

/-! Definitions that are refused for their membrane or their bindings. What the stages before look
for is there once they ran, so they leave the definition alone when they come to it again. -/

variable {frontEnd : FrontEnd} {name : String} {id : DefinitionId}
  {context before after later reached : Context} {load : String → Loading DefinitionId}

/-! ## What is resolved -/

/-- A sub-component apart from what it refers to. -/
def Component.withoutReference (component : Component) : Component :=
  { component with definition := none, resolved := none }

/-- A revision that ran leaves its draft in the slot. -/
theorem Loading.ok_of_revise {revision : Revising Definition Unit}
    (ran : Loading.revise id revision context = (.ok (), reached))
    (within : id < reached.arena.size) :
    ∃ last, revision (context, context.definition id) = (.ok (), (last, reached.definition id)) := by
  rcases outcome : revision (context, context.definition id) with ⟨result, last, draft⟩
  simp only [Loading.revise, outcome] at ran
  cases ran
  refine ⟨last, ?_⟩
  rw [definition_replace last draft (by simpa [Context.replace] using within)]

/-- The resolution of the sub-components changes what these refer to, and nothing else. -/
theorem SubComponents.resolved_of_resolveAll {resolver : Resolver}
    (ran : resolveAll resolver id context = (.ok (), reached)) (within : id < reached.arena.size) :
    ∃ components, reached.definition id = { context.definition id with components } ∧
      components.map Component.withoutReference =
        (context.definition id).components.map Component.withoutReference := by
  obtain ⟨_, _, read, ran⟩ := ok_of_bind ran
  cases read
  split at ran
  · obtain ⟨last, runs⟩ := Loading.ok_of_revise ran within
    obtain ⟨_, ⟨recorded, _⟩, records, runs⟩ := ok_of_bind runs
    obtain ⟨rfl, -⟩ := Drafting.ok_of_lift records
    obtain ⟨_, ⟨_, _⟩, resolves, runs⟩ := ok_of_bind runs
    obtain ⟨components, visits, rfl⟩ := Drafting.ok_of_onPart resolves
    have preserves : Drafting.Preserves Component.withoutReference (resolve resolver id) :=
      preserves_resolve (fun _ _ _ => rfl) resolver id
    have kept := Drafting.Preserves.each (fun _ => preserves) recorded
      (context.definition id).components
    rw [visits] at kept
    exact ⟨components, (congrArg (fun run => run.2.2) runs).symm, kept⟩
  · cases ran
    exact ⟨_, rfl, rfl⟩

/-- The merge of the parents leaves the type parameters alone. -/
theorem Parents.typeParameters_of_merge {resolver : Resolver}
    (ran : merge resolver load id context = (.ok (), reached)) (within : id < reached.arena.size) :
    (reached.definition id).typeParameters = (context.definition id).typeParameters := by
  obtain ⟨_, _, read, ran⟩ := ok_of_bind ran
  cases read
  split at ran
  · cases ran
    rfl
  · split at ran
    · cases ran
      rw [definition_replace context _ (by simpa [Context.replace] using within)]
      rfl
    · obtain ⟨last, runs⟩ := Loading.ok_of_revise ran within
      obtain ⟨_, ⟨_, _⟩, resolves, runs⟩ := ok_of_bind runs
      obtain ⟨parents, -, rfl⟩ := Drafting.ok_of_onPart resolves
      obtain ⟨inherited, ⟨_, _⟩, combines, runs⟩ := ok_of_bind runs
      obtain ⟨rfl, -⟩ := Drafting.ok_of_lift combines
      cases inherited with
      | none =>
          have same := congrArg (fun run => run.2.2.typeParameters) runs
          exact same.symm
      | some inherited =>
          obtain ⟨_, ⟨_, _⟩, takes, runs⟩ := ok_of_bind runs
          rw [takeOver_apply] at takes
          split at takes
          · cases takes
            have same := congrArg (fun run => run.2.2.typeParameters) runs
            exact same.symm
          · cases takes

/-! ## Up to the merge -/

namespace Stage

/-- What is known of a definition once its parents are merged. -/
structure Merged (frontEnd : FrontEnd) (name : String) (generic : Bool) (id : DefinitionId)
    (start context : Context) : Prop where
  valid : (making frontEnd True True name generic id).Valid context
  advances : Advances frontEnd True (some id) start context
  grew : ∃ earlier, Path frontEnd True start earlier ∧ context.GrewFrom True earlier id
  once : context.log.errors = [] → (context.definition id).typeParameterNames.Nodup
  finds : context.log.errors = [] →
    ∀ parameter ∈ (context.definition id).typeParameters, parameter.FindsType

theorem merged_of_ran {generic : Bool} {twin : String → Loading DefinitionId} {start : Context}
    (harmless : frontEnd.registry.IsHarmless) (loads : Loads frontEnd True (Making name id) load twin)
    (valid : (making frontEnd True False name generic id).Valid start)
    (ran : (beforeParents ++ [parents]).forM (run frontEnd load name id) start = (.ok (), reached)) :
    Merged frontEnd name generic id start reached := by
  have attends := attends_making frontEnd True name id
  obtain ⟨earlier, ranAnnotations, ran⟩ := ran_cons ran
  obtain ⟨parsed, ranParsing, ran⟩ := ran_cons ran
  obtain ⟨declared, ranParameters, ran⟩ := ran_cons ran
  obtain ⟨resolved, ranComponents, ran⟩ := ran_cons ran
  have ranParents := ran_singleton ran
  obtain ⟨validEarlier, leadsEarlier, isChecked, editsEarlier⟩ := (Agree.making valid
    (AnnotationRegistry.agree_checkDefinition harmless valid.2.1)).of_ok ranAnnotations
  obtain ⟨validParsed, leadsParsed, -, edits⟩ := (Agree.making validEarlier
    (AnnotationRegistry.agree_processStored harmless .afterParsing validEarlier.2.1)).of_ok ranParsing
  obtain ⟨validDeclared, leadsDeclared, conforms, declares⟩ :=
    (TypeParameters.agree_check harmless attends loads validParsed.2.1 validParsed).of_ok ranParameters
  obtain ⟨⟨sound, isMaking, made⟩, leadsResolved, complete, -, apart⟩ :=
    (SubComponents.agree_resolveAll harmless attends loads validDeclared.2.1 validDeclared).of_ok
      ranComponents
  have whole : (making frontEnd True True name generic id).Valid resolved :=
    ⟨sound, isMaking, made.names, made.shape, made.linked, fun isStrict _ => complete isStrict⟩
  obtain ⟨validReached, leadsReached, merges⟩ :=
    (Parents.agree_merge harmless attends loads isMaking whole).of_ok ranParents
  have leadsSince := Advances.trans leadsParsed (Advances.trans leadsDeclared leadsResolved)
  have silentDeclared : reached.log.errors = [] → declared.log.errors = [] :=
    Evolves.errors_eq_nil (Advances.toEvolves (Advances.trans leadsResolved leadsReached))
  have sameParameters : (reached.definition id).typeParameters =
      (declared.definition id).typeParameters := by
    obtain ⟨_, isResolved, -⟩ := SubComponents.resolved_of_resolveAll ranComponents isMaking.within
    rw [Parents.typeParameters_of_merge ranParents validReached.2.1.within, isResolved]
  refine ⟨validReached, Advances.trans leadsEarlier (Advances.trans leadsSince leadsReached),
    ⟨earlier, Advances.path leadsEarlier, ?_⟩, fun silent => ?_, fun silent => ?_⟩
  · refine merges.grewFrom sound isMaking leadsReached (Advances.toEvolves leadsSince).errors ?_ ?_
    · exact fun silent => isChecked (Evolves.errors_eq_nil (Advances.toEvolves leadsSince) silent)
    · exact fun silent => ⟨(apart silent).1,
        ((Definition.Grows.of_edits edits).trans (.of_conforms conforms)).trans (apart silent).2⟩
  · obtain ⟨-, once, -⟩ := declares (silentDeclared silent)
    rw [Definition.typeParameterNames, sameParameters, ← Definition.typeParameterNames,
      conforms.keeps.typeParameters]
    exact once
  · rw [sameParameters]
    exact (declares (silentDeclared silent)).2.2 trivial

end Stage

/-! ## Coming to the stages again -/

theorem Component.reattached_of_designates {component : Component}
    (designates : ∀ resolved, component.resolved = some resolved → context.Designates resolved) :
    component.reattached context = component := by
  have same : (component.resolved.bind fun resolved =>
      (context.resolved? resolved).map fun id => (⟨resolved.name, some id⟩ : Resolved)) =
        component.resolved := by
    cases decorated : component.resolved with
    | none => rfl
    | some resolved =>
        have holds := designates resolved decorated
        obtain ⟨target, isTarget, -⟩ := id holds
        rw [Option.bind_some, SubComponents.resolved?_eq_of_designates holds, isTarget, Option.map_some,
          ← isTarget]
  rw [reattached, same]

/-- What a sub-component designates is loaded. -/
theorem Context.Linked.loaded {definition : Definition} (linked : context.Linked definition.links)
    {component : Component} (member : component ∈ definition.components) {part : DefinitionId}
    (isPart : component.resolvedId? = some part) : context.Loaded part := by
  obtain ⟨resolved, decorated, designates⟩ := Option.bind_eq_some_iff.mp isPart
  obtain ⟨target, isId, loaded⟩ := (linked_links_iff.mp linked component member resolved decorated).loaded
  cases isId.symm.trans designates
  exact loaded

/-- Sub-components that are told apart and resolved already stay as they are. -/
theorem SubComponents.resolveAll_of_linked (resolver : Resolver)
    (apart : (context.definition id).NamesApart) (linked : context.Linked (context.definition id).links)
    (complete : ∀ component ∈ (context.definition id).components,
      component.definition.isSome = true → component.resolved.isSome = true) :
    resolveAll resolver id context = (.ok (), context) := by
  have same : ∀ component ∈ (context.definition id).components,
      component.reattached context = component := fun component member =>
    Component.reattached_of_designates (linked_links_iff.mp linked component member)
  refine (resolveAll_of_attached _ apart fun component member => ?_).trans ?_
  · rw [same component member]
    cases decorated : component.resolved with
    | some resolved => exact .inl rfl
    | none =>
        refine .inr ⟨rfl, Option.not_isSome_iff_eq_none.mp fun named => ?_⟩
        have isDecorated := complete component member named
        rw [decorated] at isDecorated
        cases isDecorated
  · rw [List.map_congr_left same, List.map_id', replace_definition]

/-- What the stages before the membrane look for is there. -/
structure Definition.IsPrepared (context : Context) (definition : Definition) : Prop where
  built : definition.Everywhere Annotations.AreBuilt
  once : definition.typeParameterNames.Nodup
  finds : ∀ parameter ∈ definition.typeParameters, parameter.FindsType
  declares : definition.DeclaresPlaceholders
  apart : definition.NamesApart
  linked : context.Linked definition.links
  complete : ∀ component ∈ definition.components, component.definition.isSome = true →
    component.resolved.isSome = true
  merged : definition.decorations.extendsMerged = true
  granted : ∀ item ∈ definition.annotations.typed, item.phases.contains .afterExtends = true →
    definition.Grants item.directive
  minds : AnnotationRegistry.MindsParts context definition
  interfaces : interfaceProblems [] definition.interfaces = []
  passed : definition.isComposite = true → definition.delegatedInterfaces = []

/-- So is what the stages between the membrane and the coverage look for. -/
structure Definition.IsConnected (extends? : String → String → Bool) (context : Context)
    (definition : Definition) : Prop where
  complete : definition.membraneProblem? = none
  first : definition.componentInterfaceFirst = definition
  expanded : ∀ binding ∈ definition.bindings, definition.expansion? context binding = none
  single : (definition.bindings.map (·.id)).Nodup
  checked : ∀ binding ∈ definition.bindings,
    binding.check definition context extends? = .ok binding.castRequired

namespace Stage

/-- The stages before the membrane is completed. -/
def beforeMembrane : List Stage :=
  beforeParents ++ [parents] ++
    [.process .afterExtends, .subComponentAnnotations, .interfaces, .delegation]

/-- The stages from there to the coverage. -/
def connecting : List Stage :=
  [.membrane, .expandBindings, .checkBindings]

theorem run_of_prepared (predefined : frontEnd.registry = .predefined)
    (load : String → Loading DefinitionId) (name : String)
    (prepared : (context.definition id).IsPrepared context) :
    ∀ stage ∈ beforeMembrane, run frontEnd load name id stage context = (.ok (), context) := by
  intro stage member
  simp only [beforeMembrane, beforeParents, List.cons_append, List.nil_append, List.mem_cons,
    List.not_mem_nil, or_false] at member
  rcases member with rfl | rfl | rfl | rfl | rfl | rfl | rfl | rfl | rfl <;>
    simp only [run, predefined]
  · exact AnnotationRegistry.checkDefinition_of_areBuilt AnnotationRegistry.isHarmless_predefined
      prepared.built
  · exact AnnotationRegistry.processStored_afterParsing (Definition.isOrdinary_iff.mpr
      (prepared.built.mono fun _ _ built => built.isPredefined))
  · exact TypeParameters.check_of_declared _ prepared.once prepared.finds prepared.declares
  · exact SubComponents.resolveAll_of_linked _ prepared.apart prepared.linked prepared.complete
  · exact Parents.merge_of_merged _ load prepared.merged
  · exact AnnotationRegistry.processStored_afterExtends prepared.built prepared.granted
  · exact AnnotationRegistry.processStoredSubComponents_of_minds prepared.minds
  · exact checkInterfaces_of_silent prepared.interfaces
  · exact delegateInterfaces_of_passed prepared.passed

theorem run_of_connected (load : String → Loading DefinitionId) (name : String)
    (connected : (context.definition id).IsConnected frontEnd.signatureExtends context) :
    ∀ stage ∈ connecting, run frontEnd load name id stage context = (.ok (), context) := by
  intro stage member
  simp only [connecting, List.mem_cons, List.not_mem_nil, or_false] at member
  rcases member with rfl | rfl | rfl
  · exact completeMembrane_of_complete connected.complete connected.first
  · exact onBindings_of_stays (normalizeBindings_of_expanded connected.expanded connected.single)
  · exact onBindings_of_stays (checkBindings_of_checked connected.checked)

/-- Told what it is and what its parts are, a definition that was merged is prepared once its
interfaces are declared and what is to be delegated is. -/
theorem prepared_of_ran {generic : Bool} {start merged final : Context} {rest : List Stage}
    (predefined : frontEnd.registry = .predefined)
    (isMerged : Merged frontEnd name generic id start merged)
    (built : (merged.definition id).Everywhere Annotations.AreBuilt)
    (apart : (merged.definition id).NamesApart) (others : ∀ stage ∈ rest, stage ∉ loading)
    (ran : (.process .afterExtends :: .subComponentAnnotations :: rest).forM
      (run frontEnd load name id) merged = (.ok (), final))
    (reports : Reports final later) (silent : later.log.errors = [])
    (loadedBuilt : ∀ other, later.Loaded other →
      (later.definition other).Everywhere Annotations.AreBuilt)
    (declares : (later.definition id).DeclaresPlaceholders) :
    ∃ marked, Making name id marked ∧
      rest.forM (run frontEnd load name id) marked = (.ok (), final) ∧
      (interfaceProblems [] (final.definition id).interfaces = [] →
        ((final.definition id).isComposite = true →
          (final.definition id).delegatedInterfaces = []) → (later.definition id).IsPrepared later) := by
  have harmless : frontEnd.registry.IsHarmless :=
    predefined ▸ AnnotationRegistry.isHarmless_predefined
  obtain ⟨extended, ranExtends, ran⟩ := ran_cons ran
  obtain ⟨marked, ranMarked, ran⟩ := ran_cons ran
  obtain ⟨makingExtended, editedExtended, -⟩ :=
    (AnnotationRegistry.agree_processStored harmless .afterExtends isMerged.valid.2.1).of_ok ranExtends
  obtain ⟨makingMarked, editedMarked, -⟩ :=
    (AnnotationRegistry.agree_processStoredSubComponents harmless makingExtended).of_ok ranMarked
  have editedLater : EditedAt name id marked later :=
    (edited_of_runOthers harmless others makingMarked ran).2.trans (.of_reports reports)
  have edited : EditedAt name id merged later :=
    (EditedAt.trans editedExtended editedMarked).trans editedLater
  obtain ⟨⟨sound, making, made⟩, -⟩ := edited.valid isMerged.valid
  have silentMerged := edited.silent silent
  have keeps := edited.edits.keeps
  have parts : ∀ index part, (later.definition id).part? index = some part →
      id ≠ part ∧ (later.definition part).Everywhere Annotations.AreBuilt := by
    intro index part isPart
    obtain ⟨component, found, designates⟩ := Option.bind_eq_some_iff.mp isPart
    have loaded := (made.linked trivial).loaded (List.mem_of_getElem? found) designates
    exact ⟨making.ne_of_loaded loaded, loadedBuilt _ loaded⟩
  obtain ⟨earlier, -, grew⟩ := isMerged.grew
  refine ⟨marked, makingMarked, ran, fun declared passed => ?_⟩
  refine ⟨built.edits Annotations.AreBuilt.survives edited.edits, ?_, ?_, declares, apart.keeps keeps,
    made.linked trivial, ?_, keeps.extendsMerged.trans grew.merged, ?_, ?_, ?_, ?_⟩
  · rw [keeps.typeParameters]
    exact isMerged.once silentMerged
  · rw [edited.edits.typeParameters]
    exact isMerged.finds silentMerged
  · intro component member named
    refine (made.complete trivial trivial component.link ?_ named).resolve_right
      fun reported => reported silent
    exact List.mem_map_of_mem member
  · exact granted_of_ran predefined isMerged.valid.2.1 ranExtends built
      (EditedAt.trans editedMarked editedLater) silent
  · exact minds_of_ran predefined makingExtended ranMarked
      (built.edits Annotations.AreBuilt.survives editedExtended.edits) editedLater parts
  · rw [reports.definition]
    exact declared
  · rw [reports.definition]
    exact passed

end Stage

/-! ## The refusal -/

theorem completeMembrane_of_problem {diagnostic : Diagnostic}
    (found : (context.definition id).membraneProblem? = some diagnostic) :
    completeMembrane id context = (.error (.fatal diagnostic), context) := by
  refine read_bind rfl ?_
  unfold Definition.membraneProblem? at found
  rw [found]
  rfl

theorem completeMembrane_of_none (none : (context.definition id).membraneProblem? = none) :
    completeMembrane id context =
      (.ok (), context.replace id (context.definition id).componentInterfaceFirst) := by
  refine read_bind rfl ?_
  unfold Definition.membraneProblem? at none
  rw [none]
  rfl

theorem requireBound_of_unbound {first : String × Span} {others : List (String × Span)}
    (composite : (context.definition id).isComposite = true)
    (concrete : (context.definition id).isAbstract = false)
    (unbound : (context.definition id).unbound context = first :: others) :
    requireBound name id context =
      (.error (.fatal (Definition.unboundReport name first others)), context) := by
  refine read_bind rfl ?_
  rw [composite, concrete]
  refine read_bind rfl ?_
  rw [unbound]
  rfl

theorem Definition.unbound_congr (same : ∀ id, after.definition id = before.definition id)
    (definition : Definition) : definition.unbound after = definition.unbound before := by
  have each : definition.unboundOf after = definition.unboundOf before := by
    funext component
    unfold unboundOf
    split
    · rfl
    · rw [same]
  rw [unbound, unbound, each]

namespace Stage

/-- A stage that refuses a definition leaves all as it is, and does so again. -/
theorem refuses_again {stage : Stage} (isRefusing : stage ∈ refusing) {diagnostic : Diagnostic}
    (refuses : run frontEnd load name id stage context = (.error (.fatal diagnostic), reached)) :
    reached = context ∧ ∀ (other : String → Loading DefinitionId) (later : Context),
      Reports context later →
        run frontEnd other name id stage later = (.error (.fatal diagnostic), later) := by
  simp only [refusing, List.mem_cons, List.not_mem_nil, or_false] at isRefusing
  rcases isRefusing with rfl | rfl
  · cases found : (context.definition id).membraneProblem? with
    | none => cases refuses.symm.trans (completeMembrane_of_none found)
    | some problem =>
        cases refuses.symm.trans (completeMembrane_of_problem found)
        exact ⟨rfl, fun _ later reports =>
          completeMembrane_of_problem (reports.definition id ▸ found)⟩
  · by_cases concrete : (context.definition id).isComposite = true ∧
        (context.definition id).isAbstract = false
    · cases found : (context.definition id).unbound context with
      | nil =>
          cases refuses.symm.trans (requireBound_of_covered name fun _ _ => found)
      | cons first others =>
          cases refuses.symm.trans (requireBound_of_unbound concrete.1 concrete.2 found)
          refine ⟨rfl, fun _ later reports => ?_⟩
          have same := reports.definition
          refine requireBound_of_unbound (same id ▸ concrete.1) (same id ▸ concrete.2) ?_
          rw [same, Definition.unbound_congr same, found]
    · cases refuses.symm.trans (requireBound_of_covered name fun composite isConcrete =>
        absurd ⟨composite, isConcrete⟩ concrete)

/-- Where a list of different stages is cut at one of them, what comes before is known. -/
theorem before_eq {first rest : List Stage} {stage : Stage} (isRefusing : stage ∈ refusing)
    (cut : all = first ++ stage :: rest) :
    first = beforeMembrane ∨ first = beforeMembrane ++ connecting := by
  have distinct : (first ++ stage :: rest).Nodup := cut ▸ (by decide : all.Nodup)
  obtain ⟨-, others, apart⟩ := List.nodup_append.mp distinct
  have known : ∀ {before after : List Stage}, all = before ++ stage :: after → first = before := by
    intro before after cutThere
    refine ((List.append_cons_inj_of_notMem ?_ (List.nodup_cons.mp others).1).mp
      (cut.symm.trans cutThere)).1
    exact fun among => apart _ among _ List.mem_cons_self rfl
  simp only [refusing, List.mem_cons, List.not_mem_nil, or_false] at isRefusing
  rcases isRefusing with rfl | rfl
  · exact .inl (@known beforeMembrane (all.drop 10) rfl)
  · exact .inr (@known (beforeMembrane ++ connecting) (all.drop 13) rfl)

/-- Interfaces are declared, and nothing is delegated any more, after the delegation. -/
theorem declaredAndPassed_of_ran {marked final : Context} (making : Making name id marked)
    (ran : [.interfaces, .delegation].forM (run frontEnd load name id) marked = (.ok (), final))
    (silent : final.log.errors = []) :
    interfaceProblems [] (final.definition id).interfaces = [] ∧
      ((final.definition id).isComposite = true →
        (final.definition id).delegatedInterfaces = []) := by
  obtain ⟨checked, ranInterfaces, ranDelegation⟩ := ran_cons ran
  obtain ⟨makingChecked, -, -, -⟩ := (agree_checkInterfaces making).of_ok ranInterfaces
  obtain ⟨-, -, declared⟩ := declared_of_ran making ran
  exact ⟨declared silent, delegated_of_ran makingChecked (ran_singleton ranDelegation)⟩

/-- The definition is connected once its bindings are checked. -/
theorem connected_of_ran {marked final : Context} (making : Making name id marked)
    (ran : ([Stage.interfaces, .delegation] ++ connecting).forM (run frontEnd load name id) marked =
      (.ok (), final))
    (reports : Reports final later) (silent : later.log.errors = []) :
    interfaceProblems [] (final.definition id).interfaces = [] ∧
      ((final.definition id).isComposite = true → (final.definition id).delegatedInterfaces = []) ∧
      (later.definition id).IsConnected frontEnd.signatureExtends later := by
  obtain ⟨complete, ranMembrane, ranBindings⟩ := ran_append [.interfaces, .delegation, .membrane] ran
  obtain ⟨delegated, ranDelegation, ranOrder⟩ := ran_append [.interfaces, .delegation] ranMembrane
  obtain ⟨makingDelegated, -⟩ := declared_of_ran making ranDelegation
  obtain ⟨-, -, noProblem, ordered⟩ :=
    (agree_completeMembrane makingDelegated).of_ok (ran_singleton ranOrder)
  obtain ⟨makingComplete, -, sizedComplete⟩ := interfaces_of_ran making ranMembrane
  obtain ⟨-, editedFinal, bindings⟩ := accepted_of_ran makingComplete ranBindings
  have silentFinal : final.log.errors = [] := List.prefix_nil.mp (silent ▸ reports.errors)
  have silentComplete := editedFinal.silent silentFinal
  obtain ⟨⟨rebound, isBound⟩, -, expanded, single⟩ := bindings silentFinal
  obtain ⟨sized, distinct⟩ := sizedComplete silentComplete
  have interfaces : (final.definition id).interfaces = (complete.definition id).interfaces := by
    rw [isBound]
  have first : ∀ external ∈ (final.definition id).interfaces,
      external.name = Membrane.componentInterface →
        (final.definition id).interfaces.head? = some external := by
    rw [interfaces]
    exact first_of_ran making ranMembrane silentComplete
  have shares : (later.definition id).SharesEnds (final.definition id) := by
    rw [reports.definition]
    exact ⟨rfl, rfl, rfl, rfl⟩
  have mirrors := shares.mirrors fun other =>
    congrArg Definition.interfaces (reports.definition other)
  refine ⟨?_, fun composite => ?_, ?_, ?_, ?_, ?_, ?_⟩
  · rw [interfaces]
    exact interfaceProblems_of_sized sized (fun _ _ => List.not_mem_nil) distinct
  · refine editedFinal.edits.delegatedInterfaces ?_ ?_ (passed_of_ran making ranMembrane ?_)
    · rw [isBound]
      exact List.Subset.refl _
    · rw [isBound]
      exact List.Subset.refl _
    · rw [Definition.isComposite, ← editedFinal.edits.kind]
      exact composite
  · have isComplete := Definition.membraneProblem?_componentInterfaceFirst noProblem
    rw [← ordered] at isComplete
    rw [reports.definition, isBound]
    exact isComplete
  · rw [reports.definition]
    exact Definition.componentInterfaceFirst_of_first first
  · rw [reports.definition] at mirrors ⊢
    exact fun binding member => (mirrors.expansion? rfl rfl).trans (expanded binding member)
  · rw [reports.definition]
    exact single
  · rw [reports.definition] at mirrors ⊢
    exact fun binding member => (Binding.check_congr mirrors rfl rfl rfl rfl).trans
      (checks_of_ran makingComplete ranBindings silentFinal binding member)

/-! ## Compilations -/

section

variable {options : Options} {definitions : List Definition} {generic : Bool}
  {start final : Context} {levels : Nat}

/-- A definition that came to the delegation without errors is prepared. -/
theorem prepared_of_path (rest : List Stage) (predefined : frontEnd.registry = .predefined)
    (plain : frontEnd.ParsesPlainly)
    (annotated : ∀ definition, definition ∈ definitions ∨ frontEnd.Parses definition →
      definition.IsPlainlyAnnotated)
    (valid : (making frontEnd True False name generic id).Valid start)
    (path : Path frontEnd True (.ofDefinitions options definitions) start)
    (others : ∀ stage ∈ rest, stage ∉ loading)
    (ran : (beforeParents ++ [parents] ++ .process .afterExtends :: .subComponentAnnotations :: rest).forM
      (run frontEnd (frontEnd.loadWithin levels) name id) start = (.ok (), final))
    (reports : Reports final later) (silent : later.log.errors = [])
    (declares : (later.definition id).DeclaresPlaceholders) :
    Advances frontEnd True (some id) start final ∧ ∃ marked, Making name id marked ∧
      rest.forM (run frontEnd (frontEnd.loadWithin levels) name id) marked = (.ok (), final) ∧
      (interfaceProblems [] (final.definition id).interfaces = [] →
        ((final.definition id).isComposite = true →
          (final.definition id).delegatedInterfaces = []) → (later.definition id).IsPrepared later) := by
  have harmless : frontEnd.registry.IsHarmless :=
    predefined ▸ AnnotationRegistry.isHarmless_predefined
  obtain ⟨merged, ranFirst, ranLast⟩ := ran_append (beforeParents ++ [parents]) ran
  have isMerged := merged_of_ran harmless (FrontEnd.loads_loadWithin harmless plain levels name id)
    valid ranFirst
  obtain ⟨-, edited⟩ := edited_of_runOthers harmless
    (by simpa [loading] using others) isMerged.valid.2.1 ranLast
  obtain ⟨-, advances⟩ := edited.valid isMerged.valid
  have silentFinal : final.log.errors = [] := List.prefix_nil.mp (silent ▸ reports.errors)
  have silentMerged := edited.silent silentFinal
  have pathMerged := path.trans (Advances.path isMerged.advances)
  have pathLater := (pathMerged.trans (Advances.path advances)).reported reports
  obtain ⟨earlier, pathEarlier, grew⟩ := isMerged.grew
  have named : (earlier.definition id).Everywhere fun _ annotations => annotations.AreNamed :=
    (Annotations.survives_areNamed.preserves fun definition parsed =>
      (annotated definition (.inr parsed)).areNamed).maintains.ofDefinitions
        (fun definition member => (annotated definition (.inl member)).areNamed)
        (path.trans pathEarlier) (List.prefix_nil.mp (silentMerged ▸ grew.errors)) id
  obtain ⟨declared, apart, -, grows⟩ := grew.apart silentMerged
  have apart : (merged.definition id).NamesApart :=
    apart.grows (pathMerged.namesApart harmless (hasSlots_ofDefinitions options definitions)
      (fun other loaded => absurd loaded (not_loaded_ofDefinitions options definitions other))
      silentMerged) grows
  exact ⟨Advances.trans isMerged.advances advances,
    prepared_of_ran predefined isMerged (grew.areBuilt named
      (FrontEnd.areBuilt_of_path harmless annotated pathMerged silentMerged) silentMerged) apart others
      ranLast reports silent (FrontEnd.areBuilt_of_path harmless annotated pathLater silent) declares⟩

/-- The stages that a definition went through before it was refused leave it alone, if there were
no errors. -/
theorem stays_before_refusal {first rest : List Stage} {stage : Stage}
    (predefined : frontEnd.registry = .predefined) (plain : frontEnd.ParsesPlainly)
    (annotated : ∀ definition, definition ∈ definitions ∨ frontEnd.Parses definition →
      definition.IsPlainlyAnnotated)
    (valid : (making frontEnd True False name generic id).Valid start)
    (path : Path frontEnd True (.ofDefinitions options definitions) start)
    (isRefusing : stage ∈ refusing) (cut : all = first ++ stage :: rest)
    (ran : first.forM (run frontEnd (frontEnd.loadWithin levels) name id) start = (.ok (), final))
    (reports : Reports final later) (silent : later.log.errors = [])
    (declares : (later.definition id).DeclaresPlaceholders)
    (load : String → Loading DefinitionId) :
    Advances frontEnd True (some id) start final ∧
      first.forM (run frontEnd load name id) later = (.ok (), later) := by
  have silentFinal : final.log.errors = [] := List.prefix_nil.mp (silent ▸ reports.errors)
  rcases before_eq isRefusing cut with rfl | rfl
  · obtain ⟨advances, marked, making, ranLast, prepares⟩ := prepared_of_path [.interfaces, .delegation]
      predefined plain annotated valid path (by decide) ran reports silent declares
    obtain ⟨declared, passed⟩ := declaredAndPassed_of_ran making ranLast silentFinal
    exact ⟨advances, forM_of_stays (run_of_prepared predefined load name (prepares declared passed))⟩
  · rw [beforeMembrane, List.append_assoc] at ran
    have others : ∀ stage ∈ [.interfaces, .delegation] ++ connecting, stage ∉ loading := by decide
    obtain ⟨advances, marked, making, ranLast, prepares⟩ :=
      prepared_of_path _ predefined plain annotated valid path others ran reports silent declares
    obtain ⟨declared, passed, connected⟩ := connected_of_ran making ranLast reports silent
    refine ⟨advances, forM_of_stays fun stage member => ?_⟩
    rcases List.mem_append.mp member with early | late
    · exact run_of_prepared predefined load name (prepares declared passed) stage early
    · exact run_of_connected load name connected stage late

end

end Stage

end Adl
