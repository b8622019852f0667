import Adl.Proofs.Annotation.Singletons

namespace Adl

open Step Context

/-! The tree of instances of a program, and the singletons in it. -/

/-- A definition that is annotated as a singleton. -/
def Definition.IsSingle (definition : Definition) : Prop :=
  definition.annotations.has Annotation.singletonKind = true

instance (definition : Definition) : Decidable definition.IsSingle :=
  inferInstanceAs (Decidable (_ = true))

/-- What the definition names a singleton was built as one. -/
def Definition.BuildsSingletons (definition : Definition) : Prop :=
  definition.Everywhere fun target annotations =>
    target = .definition → annotations.BuildsSingleton

namespace Definition

/-- What is designated no more than once is designated at one place. -/
theorem part?_inj {definition : Definition} (Matters : DefinitionId → Prop)
    (apart : definition.resolvedComponents.Pairwise fun left right =>
      Matters right.2 → left.2 ≠ right.2) {left right : Nat} {part : DefinitionId}
    (isLeft : definition.part? left = some part) (isRight : definition.part? right = some part)
    (matters : Matters part) : left = right := by
  have ordered : ∀ {first last : Nat}, definition.part? first = some part →
      definition.part? last = some part → ¬first < last := by
    intro first last isFirst isLast less
    obtain ⟨component, foundFirst, designates⟩ := Option.bind_eq_some_iff.mp isFirst
    obtain ⟨other, foundLast, alsoDesignates⟩ := Option.bind_eq_some_iff.mp isLast
    obtain ⟨withinFirst, rfl⟩ := List.getElem?_eq_some_iff.mp foundFirst
    obtain ⟨withinLast, rfl⟩ := List.getElem?_eq_some_iff.mp foundLast
    exact List.pairwise_iff_getElem.mp (List.pairwise_filterMap.mp apart) first last withinFirst
      withinLast less (definition.components[first], part) (by rw [designates]; rfl)
      (definition.components[last], part) (by rw [alsoDesignates]; rfl) matters rfl
  rcases Nat.lt_trichotomy left right with less | same | more
  · exact absurd less (ordered isLeft isRight)
  · exact same
  · exact absurd more (ordered isRight isLeft)

end Definition

/-! ## What the last stages see to -/

namespace Stage

variable {frontEnd : FrontEnd} {load : String → Loading DefinitionId} {name : String}
  {id : DefinitionId} {before after : Context}

/-- Between the look at the sub-components and the last stage nothing is annotated. -/
theorem annotations_of_ran (making : Making name id before)
    (ran : [.interfaces, .delegation, .membrane, .expandBindings, .checkBindings, .coverage,
      .parameters, .attributes].forM (run frontEnd load name id) before = (.ok (), after)) :
    Making name id after ∧ EditedAt name id before after ∧ (after.log.errors = [] →
      (after.definition id).annotations = (before.definition id).annotations) := by
  obtain ⟨checked, ranInterfaces, ran⟩ := ran_cons ran
  obtain ⟨delegated, ranDelegation, ran⟩ := ran_cons ran
  obtain ⟨complete, ranMembrane, ran⟩ := ran_cons ran
  obtain ⟨bound, ranBindings, ran⟩ := ran_append [.expandBindings, .checkBindings, .coverage] ran
  obtain ⟨parameterized, ranParameters, ran⟩ := ran_cons ran
  have ranAttributes := ran_singleton ran
  obtain ⟨makingChecked, editedChecked, reports, -⟩ :=
    (agree_checkInterfaces making).of_ok ranInterfaces
  obtain ⟨makingDelegated, editedDelegated, delegates⟩ :=
    (agree_delegateInterfaces makingChecked).of_ok ranDelegation
  obtain ⟨makingComplete, editedComplete, -, ordered⟩ :=
    (agree_completeMembrane makingDelegated).of_ok ranMembrane
  obtain ⟨makingBound, editedBound, bindings⟩ := bindings_of_ran makingComplete ranBindings
  obtain ⟨makingParameterized, editedParameterized, reportsParameters⟩ :=
    (agree_checkParameters makingBound).of_ok ranParameters
  obtain ⟨makingAfter, editedAfter, ⟨attributes, settled⟩, -⟩ :=
    (agree_settleAttributes makingParameterized).of_ok ranAttributes
  refine ⟨makingAfter, ((((editedChecked.trans editedDelegated).trans editedComplete).trans
    editedBound).trans editedParameterized).trans editedAfter, fun silent => ?_⟩
  obtain ⟨⟨rebound, isBound⟩, -⟩ := bindings (editedParameterized.silent (editedAfter.silent silent))
  have annotationsDelegated : (delegated.definition id).annotations =
      (checked.definition id).annotations := by
    rcases delegates with ⟨same, -⟩ | made
    · rw [same]
    · obtain ⟨_, _, _, changed⟩ := Definition.withDelegator_eq made
      rw [changed]
  obtain ⟨interfaces, -, -, ordering⟩ := (delegated.definition id).componentInterfaceFirst_eq
  rw [settled, reportsParameters.definition, isBound, ordered, ordering, ← reports.definition]
  exact annotationsDelegated

end Stage

/-- What a definition holds, and it is a singleton itself if it holds one, and holds it once. -/
structure Context.HoldsSingletonsOnce (context : Context) (id : DefinitionId) : Prop where
  spreads : ∀ index part, (context.definition id).part? index = some part →
    (context.definition part).IsSingle → (context.definition id).IsSingle
  once : ∀ left right part, (context.definition id).part? left = some part →
    (context.definition id).part? right = some part → (context.definition part).IsSingle →
      left = right
  decorated : (context.definition id).IsSingle →
    (context.definition id).decorations.singleton = true

namespace Context

variable {frontEnd : FrontEnd} {strict : Prop} {origin earlier middle before after : Context}
  {name : String} {id : DefinitionId}

theorem GrewFrom.buildsSingletons (grew : middle.GrewFrom strict earlier id)
    (ordinary : (earlier.definition id).IsOrdinary)
    (loaded : ∀ other, middle.Loaded other → (middle.definition other).BuildsSingletons)
    (silent : middle.log.errors = []) : (middle.definition id).BuildsSingletons := by
  obtain ⟨declared, -, first, second⟩ := grew.apart silent
  have everywhere : (earlier.definition id).BuildsSingletons := by
    refine ((grew.checked silent).and (Definition.isOrdinary_iff.mp ordinary)).mono ?_
    rintro _ annotations ⟨checked, predefined⟩ rfl
    exact .of_checked checked predefined
  exact everywhere.grows Annotations.BuildsSingleton.survives loaded (first.trans second)

/-- All that is loaded on the way builds its singletons. -/
theorem Path.buildsSingletons (harmless : frontEnd.registry.IsHarmless)
    (path : Path frontEnd strict origin after) (slots : origin.HasSlots)
    (start : ∀ id, ¬origin.Loaded id)
    (ordinary : ∀ {reached}, Path frontEnd strict origin reached → reached.log.errors = [] →
      ∀ id, (reached.definition id).IsOrdinary)
    (silent : after.log.errors = []) :
    ∀ id, after.Loaded id → (after.definition id).BuildsSingletons := by
  refine path.forall_loaded slots (fun id loaded => absurd loaded (start id)) ?_ silent
  intro earlier middle before name id load pathEarlier making grew ran silent loaded
  have edited := (Stage.edited_of_runOthers harmless (by decide) making ran).2
  have silentMiddle := edited.silent silent
  exact (grew.buildsSingletons
    (ordinary pathEarlier (List.prefix_nil.mp (silentMiddle ▸ grew.errors)) id)
    (loaded silentMiddle) silentMiddle).edits Annotations.BuildsSingleton.survives edited.edits

/-- The last stages leave a definition that holds singletons once, if the definitions of its
parts build theirs and it is not a part of itself. -/
theorem ClosedOn.holdsSingletonsOnce (predefined : frontEnd.registry = .predefined)
    (closed : ClosedOn frontEnd strict origin name id middle before after)
    (ordinary : (middle.definition id).IsOrdinary) (builds : (middle.definition id).BuildsSingletons)
    (parts : ∀ index part, (before.definition id).part? index = some part →
      id ≠ part ∧ (before.definition part).BuildsSingletons)
    (silent : before.log.errors = []) : before.HoldsSingletonsOnce id := by
  have harmless : frontEnd.registry.IsHarmless :=
    predefined ▸ AnnotationRegistry.isHarmless_predefined
  obtain ⟨load, ran⟩ := closed.ran
  obtain ⟨extended, ranExtended, ran⟩ := Stage.ran_append [.process .afterExtends] ran
  obtain ⟨marked, ranMarked, ran⟩ := Stage.ran_cons ran
  obtain ⟨settled, ranSettled, ran⟩ := Stage.ran_append [.interfaces, .delegation, .membrane,
    .expandBindings, .checkBindings, .coverage, .parameters, .attributes] ran
  have ranLast := Stage.ran_singleton ran
  obtain ⟨makingExtended, editedExtended⟩ :=
    Stage.edited_of_runOthers harmless (by decide) closed.making ranExtended
  change frontEnd.registry.processStoredSubComponents id extended = _ at ranMarked
  change frontEnd.registry.processStored .afterChecking id settled = _ at ranLast
  rw [predefined] at ranMarked ranLast
  obtain ⟨makingMarked, editedMarked, spreads⟩ :=
    (AnnotationRegistry.agree_processStoredSubComponents_spread makingExtended).of_ok ranMarked
  obtain ⟨makingSettled, editedSettled, annotations⟩ :=
    Stage.annotations_of_ran makingMarked ranSettled
  have edited := (editedExtended.trans editedMarked).trans editedSettled
  have ordinarySettled := ordinary.edits edited.edits
  obtain ⟨-, editedLast, ⟨decorations, isLast⟩, settles⟩ :=
    ((AnnotationRegistry.agree_processStored_last makingSettled ordinarySettled).and
      (AnnotationRegistry.agree_processStored_settles makingSettled ordinarySettled)).of_ok ranLast
  have buildsSettled := (builds.edits Annotations.BuildsSingleton.survives edited.edits).own rfl
  have sameAnnotations := annotations (editedLast.silent silent)
  -- the definitions of the parts were there all the time
  have unchanged : ∀ part, id ≠ part → extended.definition part = before.definition part ∧
      settled.definition part = before.definition part := fun part different =>
    ⟨((editedMarked.trans editedSettled).trans editedLast).definition_of_ne different |>.symm,
      editedLast.definition_of_ne different |>.symm⟩
  have partsSettled : ∀ index, (settled.definition id).part? index =
      (before.definition id).part? index := fun index =>
    (editedLast.edits.keeps.part? index).symm
  have partsExtended : ∀ index, (extended.definition id).part? index =
      (before.definition id).part? index := fun index =>
    (((editedMarked.trans editedSettled).trans editedLast).edits.keeps.part? index).symm
  have single : (before.definition id).IsSingle ↔ (settled.definition id).IsSingle := by
    rw [isLast]
    rfl
  have found : (before.definition id).IsSingle → (before.definition id).decorations.singleton = true ∧
      Singleton.duplicates settled .empty (settled.definition id).resolvedComponents = [] := by
    intro isSingle
    have settledOne := settles (buildsSettled.built (single.mp isSingle))
    exact ⟨settledOne.1, settledOne.2 silent⟩
  have spread : ∀ index part, (before.definition id).part? index = some part →
      (before.definition part).IsSingle → (before.definition id).IsSingle := by
    intro index part isPart isSingle
    obtain ⟨different, buildsPart⟩ := parts index part isPart
    rw [single, Definition.IsSingle, sameAnnotations]
    refine spreads index part ((partsExtended index).trans isPart) ?_
    rw [(unchanged part different).1]
    exact (buildsPart.own rfl).built isSingle
  refine ⟨spread, ?_, fun isSingle => (found isSingle).1⟩
  intro left right part isLeft isRight isSingle
  obtain ⟨-, none⟩ := found (spread left part isLeft isSingle)
  have isSettled : (settled.definition part).IsSingle := by
    rw [(unchanged part (parts left part isLeft).1).2]
    exact isSingle
  refine Definition.part?_inj
    (fun part => Singleton.isSingleton (settled.definition part) = true)
    (Singleton.apart_of_no_duplicates none).2 ((partsSettled left).trans isLeft)
    ((partsSettled right).trans isRight) ?_
  exact Bool.or_eq_true_iff.mpr (.inr isSettled)

/-! ## The tree of instances -/

/-- The definitions on the way from a definition to a part of it, by the positions of the
sub-components that are passed. -/
def along? (context : Context) : DefinitionId → List Nat → Option (List DefinitionId)
  | id, [] => some [id]
  | id, index :: rest => do
      let part ← (context.definition id).part? index
      let others ← context.along? part rest
      return id :: others

section Tree

variable {context : Context} {root part : DefinitionId} {path : List Nat} {chain : List DefinitionId}
  {index : Nat}

theorem along?_cons (along : context.along? root (index :: path) = some chain) :
    ∃ part others, (context.definition root).part? index = some part ∧
      context.along? part path = some others ∧ chain = root :: others := by
  obtain ⟨part, isPart, along⟩ := Option.bind_eq_some_iff.mp along
  obtain ⟨others, alongOthers, isChain⟩ := Option.bind_eq_some_iff.mp along
  exact ⟨part, others, isPart, alongOthers, (Option.some.inj isChain).symm⟩

theorem head?_of_along (along : context.along? root path = some chain) : chain.head? = some root := by
  cases path with
  | nil =>
      cases along
      rfl
  | cons index rest =>
      obtain ⟨_, _, -, -, rfl⟩ := along?_cons along
      rfl

/-- Where all that is loaded holds singletons once, all definitions on the way to a singleton are
singletons, and they tell the way. -/
theorem singletons_along
    (parts : ∀ id index part, context.Loaded id → (context.definition id).part? index = some part →
      context.Loaded part)
    (once : ∀ id, context.Loaded id → context.HoldsSingletonsOnce id) (loaded : context.Loaded root)
    (along : context.along? root path = some chain) {last : DefinitionId}
    (ends : chain.getLast? = some last) (isSingle : (context.definition last).IsSingle) :
    (∀ id ∈ chain, (context.definition id).IsSingle ∧
        (context.definition id).decorations.singleton = true) ∧
      ∀ other, context.along? root other = some chain → other = path := by
  have decorate : ∀ id, context.Loaded id → (context.definition id).IsSingle →
      (context.definition id).IsSingle ∧ (context.definition id).decorations.singleton = true :=
    fun id loaded isSingle => ⟨isSingle, (once id loaded).decorated isSingle⟩
  induction path generalizing root chain with
  | nil =>
      cases along
      cases ends
      refine ⟨fun id member => List.mem_singleton.mp member ▸ decorate root loaded isSingle, ?_⟩
      intro other alongOther
      cases other with
      | nil => rfl
      | cons index rest =>
          obtain ⟨part, others, -, alongRest, same⟩ := along?_cons alongOther
          cases same
          exact nomatch head?_of_along alongRest
  | cons index rest induction =>
      obtain ⟨part, others, isPart, alongRest, rfl⟩ := along?_cons along
      have begins := head?_of_along alongRest
      obtain ⟨tail, rfl⟩ := List.head?_eq_some_iff.mp begins
      obtain ⟨singles, unique⟩ := induction (parts root index part loaded isPart) alongRest ends
      have rootIsSingle := (once root loaded).spreads index part isPart
        (singles part List.mem_cons_self).1
      refine ⟨List.forall_mem_cons.mpr ⟨decorate root loaded rootIsSingle, singles⟩, ?_⟩
      intro other alongOther
      cases other with
      | nil => exact nomatch alongOther
      | cons position others =>
          obtain ⟨also, tail', isAlso, alongOthers, same⟩ := along?_cons alongOther
          cases same
          cases head?_of_along alongOthers
          rw [(once root loaded).once position index part isAlso isPart
            (singles part List.mem_cons_self).1, unique others alongOthers]

end Tree

end Context

/-! ## Compilations -/

namespace FrontEnd

/-- After a compilation that succeeds the parts of what is loaded are loaded, and all that is loaded
holds singletons once. -/
theorem holdsSingletonsOnce_of_compile {frontEnd : FrontEnd} {options : Options}
    {definitions : List Definition} {roots : List String} (predefined : frontEnd.registry = .predefined)
    (plain : frontEnd.ParsesPlainly)
    (undecorated : ∀ definition ∈ definitions, ∀ component ∈ definition.components,
      component.resolved = none)
    (ordinary : ∀ definition, definition ∈ definitions ∨ frontEnd.Parses definition →
      definition.IsOrdinary)
    {compiled : Compiled}
    (succeeds : (frontEnd.compile (.ofDefinitions options definitions) roots).outcome =
      .ok compiled) :
    (∀ id index part, compiled.context.Loaded id →
        (compiled.context.definition id).part? index = some part → compiled.context.Loaded part) ∧
      ∀ id, compiled.context.Loaded id → compiled.context.HoldsSingletonsOnce id := by
  have harmless : frontEnd.registry.IsHarmless :=
    predefined ▸ AnnotationRegistry.isHarmless_predefined
  have slots := hasSlots_ofDefinitions options definitions
  obtain ⟨sound, -, -⟩ := advances_compile harmless (fun _ : True => plain) roots
    (sound_ofDefinitions options definitions fun _ => undecorated) succeeds
  obtain ⟨silent, way, closedOn⟩ := closedOn_of_compile harmless (fun _ : True => plain)
    (fun _ => undecorated) succeeds
  have ordinaryOn : ∀ {reached}, Path frontEnd True (.ofDefinitions options definitions) reached →
      reached.log.errors = [] → ∀ id, (reached.definition id).IsOrdinary := fun path silent id =>
    (preserves_isOrdinary fun definition parsed => ordinary definition (.inr parsed)).maintains
      |>.ofDefinitions (fun definition member => ordinary definition (.inl member)) path silent id
  have builds : ∀ {reached}, Path frontEnd True (.ofDefinitions options definitions) reached →
      reached.log.errors = [] → ∀ id, reached.Loaded id → (reached.definition id).BuildsSingletons :=
    fun path silent => path.buildsSingletons harmless slots
      (not_loaded_ofDefinitions options definitions) ordinaryOn silent
  have contains : ∀ {id index part}, compiled.context.Loaded id →
      (compiled.context.definition id).part? index = some part →
        compiled.context.Contains id part := by
    intro id index part loaded isPart
    obtain ⟨component, found, designates⟩ := Option.bind_eq_some_iff.mp isPart
    exact ⟨loaded, component, List.mem_of_getElem? found, designates⟩
  have loadedBy : ∀ {id index part}, compiled.context.Loaded id →
      (compiled.context.definition id).part? index = some part →
        compiled.context.LoadedBy part id := by
    intro id index part loaded isPart
    obtain ⟨name, found⟩ := loaded
    obtain ⟨place, within, entry⟩ := List.getElem_of_mem (Table.mem_entries_of_find? found)
    have isLast := entry ▸ List.getElem?_eq_getElem within
    obtain ⟨earlier, less, other, isFirst⟩ :=
      sound.earlier_of_contains (contains ⟨name, found⟩ isPart) isLast
    exact ⟨earlier, place, other, name, Nat.le_of_lt less, isFirst, isLast⟩
  refine ⟨fun id index part loaded isPart => (loadedBy loaded isPart).loaded sound,
    fun id loaded => ?_⟩
  obtain ⟨name, middle, before, closed⟩ := closedOn id loaded
  have silentBefore := closed.silent silent
  have silentMiddle := (closed.edited harmless).silent silentBefore
  obtain ⟨earlier, pathEarlier, grew⟩ := closed.grew
  have silentEarlier := List.prefix_nil.mp (silentMiddle ▸ grew.errors)
  have whole : before.HoldsSingletonsOnce id := by
    refine closed.holdsSingletonsOnce predefined (ordinaryOn closed.path silentMiddle id)
      (grew.buildsSingletons (ordinaryOn pathEarlier silentEarlier id)
        (builds closed.path silentMiddle) silentMiddle) ?_ silentBefore
    intro index part isPart
    rw [← closed.definition] at isPart
    have isBy := loadedBy loaded isPart
    refine ⟨?_, ?_⟩
    · rintro rfl
      exact sound.acyclic id (.single (contains loaded isPart))
    · rw [← closed.definition_of_loadedBy sound isBy]
      exact builds way silent part (isBy.loaded sound)
  have samePart : ∀ index part, (compiled.context.definition id).part? index = some part →
      compiled.context.definition part = before.definition part := fun index part isPart =>
    closed.definition_of_loadedBy sound (loadedBy loaded isPart)
  refine ⟨?_, ?_, ?_⟩
  · intro index part isPart isSingle
    rw [samePart index part isPart] at isSingle
    rw [closed.definition] at isPart ⊢
    exact whole.spreads index part isPart isSingle
  · intro left right part isLeft isRight isSingle
    rw [samePart left part isLeft] at isSingle
    rw [closed.definition] at isLeft isRight
    exact whole.once left right part isLeft isRight isSingle
  · rw [closed.definition]
    exact whole.decorated

/-- In the tree of instances of a compilation that succeeds a place of a singleton is told by the
definitions on the way to it, which are singletons all. So where but one way through definitions
leads to a singleton, it is instantiated once. -/
theorem singletons_of_compile (frontEnd : FrontEnd) (options : Options)
    (definitions : List Definition) (roots : List String) (predefined : frontEnd.registry = .predefined)
    (plain : frontEnd.ParsesPlainly)
    (undecorated : ∀ definition ∈ definitions, ∀ component ∈ definition.components,
      component.resolved = none)
    (ordinary : ∀ definition, definition ∈ definitions ∨ frontEnd.Parses definition →
      definition.IsOrdinary)
    {compiled : Compiled}
    (succeeds : (frontEnd.compile (.ofDefinitions options definitions) roots).outcome = .ok compiled)
    {root last : DefinitionId} {path : List Nat} {chain : List DefinitionId}
    (loaded : compiled.context.Loaded root)
    (along : compiled.context.along? root path = some chain) (ends : chain.getLast? = some last)
    (isSingle : (compiled.context.definition last).IsSingle) :
    (∀ id ∈ chain, (compiled.context.definition id).IsSingle ∧
        (compiled.context.definition id).decorations.singleton = true) ∧
      ∀ other, compiled.context.along? root other = some chain → other = path := by
  obtain ⟨parts, once⟩ :=
    holdsSingletonsOnce_of_compile predefined plain undecorated ordinary succeeds
  exact singletons_along parts once loaded along ends isSingle

/-- Two composites that hold the same singleton, and a composite of them. -/
def doubling : List Definition :=
  let part (name target : String) : Component :=
    ⟨name, some (.ofName target), none, .generated, .none, none, false⟩
  [ { Definition.ofKind "a.S" .primitive with
      annotations := ⟨[.ofType Annotation.singletonKind], []⟩ },
    { Definition.ofKind "a.A" .composite with components := [part "s" "a.S"] },
    { Definition.ofKind "a.B" .composite with components := [part "s" "a.S"] },
    { Definition.ofKind "a.Top" .composite with components := [part "a" "a.A", part "b" "a.B"] } ]

/-- The singleton is at one place below the first composite. -/
theorem doubled_single_below :
    ∃ compiled, (registeredOnly.compile (.ofDefinitions .default doubling) ["a.Top"]).outcome =
        .ok compiled ∧
      compiled.context.along? 3 [0, 0] = some [3, 1, 0] ∧
      (compiled.context.definition 3).decorations.singleton = true ∧
      ∀ other, compiled.context.along? 3 other = some [3, 1, 0] → other = [0, 0] := by
  have succeeds : (registeredOnly.compile (.ofDefinitions .default doubling)
      ["a.Top"]).outcome.toOption.any (fun compiled => compiled.context.cache.find? "a.Top" = some 3 ∧
        compiled.context.along? 3 [0, 0] = some [3, 1, 0] ∧
        (compiled.context.definition 0).IsSingle) = true := by
    decide +kernel
  obtain ⟨compiled, outcome, found, along, isSingle⟩ := exists_ok_of_any succeeds
  have told := singletons_of_compile registeredOnly .default doubling ["a.Top"] rfl
    parsesPlainly_registeredOnly (by decide) (fun definition declared => ?_) outcome ⟨"a.Top", found⟩
    along rfl isSingle
  · exact ⟨compiled, outcome, along, (told.1 3 List.mem_cons_self).2, told.2⟩
  · rcases declared with member | ⟨_, _, _, _, isParser, -⟩
    · have untyped : ∀ definition ∈ doubling, definition.IsUntyped := by decide
      exact (untyped definition member).isOrdinary
    · exact nomatch isParser

/-- Two different ways lead to it from the top: the program has two instances of it. -/
theorem doubled_not_single :
    ∃ compiled, (registeredOnly.compile (.ofDefinitions .default doubling) ["a.Top"]).outcome =
        .ok compiled ∧
      compiled.context.cache.find? "a.Top" = some 3 ∧
      (compiled.context.definition 3).isComposite = true ∧
      (compiled.context.definition 3).isAbstract = false ∧
      (compiled.context.definition 0).IsSingle ∧
      ¬∀ left right leftChain rightChain, compiled.context.along? 3 left = some leftChain →
        compiled.context.along? 3 right = some rightChain → leftChain.getLast? = some 0 →
          rightChain.getLast? = some 0 → left = right := by
  have succeeds : (registeredOnly.compile (.ofDefinitions .default doubling)
      ["a.Top"]).outcome.toOption.any (fun compiled => compiled.context.cache.find? "a.Top" = some 3 ∧
        (compiled.context.definition 3).isComposite = true ∧
        (compiled.context.definition 3).isAbstract = false ∧
        (compiled.context.definition 0).IsSingle ∧
        compiled.context.along? 3 [0, 0] = some [3, 1, 0] ∧
        compiled.context.along? 3 [1, 0] = some [3, 2, 0]) = true := by
    decide +kernel
  obtain ⟨compiled, outcome, found, composite, concrete, isSingle, first, second⟩ :=
    exists_ok_of_any succeeds
  refine ⟨compiled, outcome, found, composite, concrete, isSingle, fun once => ?_⟩
  exact absurd (once [0, 0] [1, 0] _ _ first second rfl rfl) (by decide)

end FrontEnd

end Adl
