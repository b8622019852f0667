import Adl.Proofs.Binding.Wiring
import Adl.Proofs.Membrane.Requests

namespace Adl

open Step Context

/-! Singletons. A composite that holds a singleton becomes one, and no composite holds the same
singleton twice. So all that leads to a singleton are singletons, and a place in the tree of
instances is told by the definitions on the way to it. -/

/-! ## Annotations -/

namespace Annotation

/-- The kind tells the predefined annotation. -/
theorem IsPredefined.eq_singleton {built : Annotation} (isPredefined : built.IsPredefined)
    (kind : built.kind = singletonKind) : built = .singleton := by
  have attributeController : "AttributeController" ≠ singletonKind := by decide
  have bindingController : "BindingController" ≠ singletonKind := by decide
  rcases isPredefined.cases with rfl | rfl | rfl | ⟨_, rfl⟩ | ⟨_, rfl⟩ | rfl | rfl | rfl
  · exact absurd kind (by decide)
  · rfl
  · exact absurd kind (by decide)
  · exact absurd kind attributeController
  · exact absurd kind bindingController
  all_goals exact absurd kind (by decide)

end Annotation

namespace AnnotationRegistry

variable {registry : AnnotationRegistry} {target : Target} {taken : List Annotation}
  {nodes : List AnnotationNode} {node : AnnotationNode} {built : Annotation}

/-- What bears the name of the kind is built as a singleton. -/
theorem eq_singleton_of_build (named : node.typeName = Annotation.singletonKind)
    (builds : predefined.build node = .ok built) : built = .singleton := by
  obtain ⟨descriptor, arguments, found, made⟩ := exists_of_build builds
  have known : predefined.descriptor? Annotation.singletonKind =
      some (plain .singleton (some Singleton.process)) := rfl
  rw [named] at found
  cases known.symm.trans found
  exact eq_of_plain made

/-- Where as many annotations are accepted as there are nodes, each node was built. -/
theorem builds_of_length
    (whole : (registry.accepted target taken nodes).length = taken.length + nodes.length) :
    ∀ node ∈ nodes, ∃ built, registry.build node = .ok built := by
  induction nodes generalizing taken with
  | nil => exact nofun
  | cons first rest induction =>
      have bound : ∀ taken, (registry.accepted target taken rest).length ≤
          taken.length + rest.length := fun taken => length_accepted_le target taken rest
      unfold accepted at whole
      rw [List.length_cons] at whole
      split at whole
      · exact absurd (whole ▸ bound taken) (by omega)
      · rename_i built builds
        split at whole
        · refine List.forall_mem_cons.mpr ⟨⟨built, builds⟩, induction (whole.trans ?_)⟩
          rw [List.length_append, List.length_singleton]
          omega
        · exact absurd (whole ▸ bound taken) (by omega)

/-- No kind is lost that the element admits. -/
theorem exists_accepted (among : built ∈ taken ∨
      ∃ node ∈ nodes, registry.build node = .ok built ∧ built.targets.contains target = true) :
    ∃ other ∈ registry.accepted target taken nodes, other.kind = built.kind := by
  induction nodes generalizing taken built with
  | nil => exact ⟨built, among.resolve_right nofun, rfl⟩
  | cons first rest induction =>
      unfold accepted
      rcases among with old | ⟨node, member, builds, admits⟩
      · split
        · exact induction (.inl old)
        · split
          · exact induction (.inl (List.mem_append_left _ old))
          · exact induction (.inl old)
      · rcases List.mem_cons.mp member with rfl | member
        · rw [builds]
          dsimp only
          split
          · exact induction (.inl (List.mem_append_right _ (List.mem_singleton_self _)))
          · rename_i refused
            rw [admits, Bool.true_and, Bool.not_eq_true, Bool.not_eq_false', List.any_eq_true]
              at refused
            obtain ⟨other, known, same⟩ := refused
            obtain ⟨last, found, kind⟩ := induction (.inl known)
            exact ⟨last, found, kind.trans (beq_iff_eq.mp same)⟩
        · have later : ∀ taken, ∃ other ∈ registry.accepted target taken rest,
              other.kind = built.kind :=
            fun taken => induction (.inr ⟨node, member, builds, admits⟩)
          split
          · exact later taken
          · split <;> exact later _

end AnnotationRegistry

namespace Annotations

theorem has_iff {annotations : Annotations} {kind : String} :
    annotations.has kind = true ↔ (∃ built ∈ annotations.typed, built.kind = kind) ∨
      ∃ node ∈ annotations.nodes, node.typeName = kind := by
  simp only [has, Bool.or_eq_true, List.any_eq_true, beq_iff_eq]

/-- A definition that is annotated as a singleton has the annotation built. -/
structure BuildsSingleton (annotations : Annotations) : Prop where
  predefined : annotations.ArePredefined
  accepted : ∀ node ∈ annotations.nodes, node.typeName = Annotation.singletonKind →
    AnnotationRegistry.predefined.build node = .ok .singleton
  built : annotations.has Annotation.singletonKind = true →
    Annotation.singleton ∈ annotations.typed

namespace BuildsSingleton

variable {annotations left right : Annotations}

theorem has_of_mem (member : Annotation.singleton ∈ annotations.typed) :
    annotations.has Annotation.singletonKind = true :=
  has_iff.mpr (.inl ⟨_, member, rfl⟩)

theorem of_built (predefined : annotations.ArePredefined)
    (accepted : ∀ node ∈ annotations.nodes, node.typeName = Annotation.singletonKind →
      AnnotationRegistry.predefined.build node = .ok .singleton)
    (kept : ∀ node ∈ annotations.nodes, node.typeName = Annotation.singletonKind →
      ∃ built ∈ annotations.typed, built.kind = Annotation.singletonKind) :
    annotations.BuildsSingleton := by
  refine ⟨predefined, accepted, fun has => ?_⟩
  have typed : ∃ built ∈ annotations.typed, built.kind = Annotation.singletonKind :=
    (has_iff.mp has).elim id fun ⟨node, member, named⟩ => kept node member named
  obtain ⟨built, member, kind⟩ := typed
  exact (predefined built member).eq_singleton kind ▸ member

theorem rebuilt (accepted : ∀ node ∈ annotations.nodes, node.typeName = Annotation.singletonKind →
      AnnotationRegistry.predefined.build node = .ok .singleton) :
    (annotations.rebuilt .definition).BuildsSingleton :=
  .of_built isPredefined_rebuilt accepted fun node member named =>
    AnnotationRegistry.exists_accepted (.inr ⟨node, member, accepted node member named, rfl⟩)

theorem of_checked (checked : annotations.IsChecked .definition)
    (predefined : annotations.ArePredefined) : annotations.BuildsSingleton := by
  have accepted : ∀ node ∈ annotations.nodes, node.typeName = Annotation.singletonKind →
      AnnotationRegistry.predefined.build node = .ok .singleton := by
    intro node member named
    obtain ⟨built, builds⟩ := AnnotationRegistry.builds_of_length
      (checked.whole.trans (Nat.zero_add _).symm) node member
    exact AnnotationRegistry.eq_singleton_of_build named builds ▸ builds
  rcases checked.built with none | same
  · exact .of_built predefined accepted fun node member => nomatch none ▸ member
  · exact same ▸ rebuilt accepted

theorem attached (isNew : annotations.has Annotation.singletonKind = false)
    (builds : annotations.BuildsSingleton) :
    (annotations.attach (.ofType Annotation.singletonKind) .singleton).BuildsSingleton := by
  refine .of_built ?_ ?_ fun _ _ _ => ?_
  · exact survives_arePredefined.attached _ isNew builds.predefined
  · intro node member named
    rcases List.mem_append.mp member with old | new
    · exact builds.accepted node old named
    · rw [List.mem_singleton.mp new]
      decide +kernel
  · exact ⟨_, List.mem_append_right _ (List.mem_singleton_self _), rfl⟩

theorem inherited (builds : annotations.BuildsSingleton) : annotations.inherited.BuildsSingleton := by
  refine .of_built (survives_arePredefined.inherited _ builds.predefined) ?_ ?_
  · exact fun node member => builds.accepted node (List.mem_filter.mp member).1
  · intro node member named
    have has := has_iff.mpr (.inr ⟨node, (List.mem_filter.mp member).1, named⟩)
    exact ⟨_, List.mem_filter.mpr ⟨builds.built has, rfl⟩, rfl⟩

theorem union (leftBuilds : left.BuildsSingleton) (rightBuilds : right.BuildsSingleton) :
    (left.union right).BuildsSingleton := by
  refine .of_built
    (survives_arePredefined.union _ _ leftBuilds.predefined rightBuilds.predefined) ?_ ?_
  · intro node member
    rcases addNew.mem AnnotationNode.typeName member with old | new
    · exact leftBuilds.accepted node old
    · exact rightBuilds.accepted node new
  · intro node member named
    have typed : Annotation.singleton ∈ left.typed ∨ Annotation.singleton ∈ right.typed :=
      (addNew.mem AnnotationNode.typeName member).imp
        (fun old => leftBuilds.built (has_iff.mpr (.inr ⟨node, old, named⟩)))
        fun new => rightBuilds.built (has_iff.mpr (.inr ⟨node, new, named⟩))
    exact addNew.exists_of_mem Annotation.kind typed

theorem survives : Survives fun target annotations =>
    target = .definition → annotations.BuildsSingleton where
  none _ _ := .of_built nofun nofun nofun
  rebuilt target annotations builds isDefinition := by
    cases isDefinition
    exact rebuilt (builds rfl).accepted
  attached _ isNew builds _ := (builds rfl).attached isNew
  inherited _ builds _ := (builds rfl).inherited
  union _ _ left right _ := (left rfl).union (right rfl)

end BuildsSingleton

end Annotations

/-! ## Spreading -/

namespace Definition

variable {definition extended : Definition}

/-- Where one definition is annotated as a singleton the other is too. -/
def StaysSingle (original changed : Definition) : Prop :=
  original.annotations.has Annotation.singletonKind = true →
    changed.annotations.has Annotation.singletonKind = true

theorem StaysSingle.of_same (same : extended.annotations = definition.annotations) :
    definition.StaysSingle extended :=
  fun has => same ▸ has

/-- Two definitions are annotated alike, and decorated as singletons or not. -/
structure MarkedAlike (original changed : Definition) : Prop where
  annotations : changed.annotations = original.annotations
  singleton : changed.decorations.singleton = original.decorations.singleton

theorem MarkedAlike.refl (definition : Definition) : definition.MarkedAlike definition :=
  ⟨rfl, rfl⟩

theorem MarkedAlike.trans {first second third : Definition} (earlier : first.MarkedAlike second)
    (later : second.MarkedAlike third) : first.MarkedAlike third :=
  ⟨later.annotations.trans earlier.annotations, later.singleton.trans earlier.singleton⟩

/-- A controller leaves no mark. -/
theorem markedAlike_addControl {control : Membrane.Control}
    (succeeds : definition.addControl control = .ok extended) :
    definition.MarkedAlike extended := by
  cases (addControl_eq_ok definition control).symm.trans succeeds
  exact ⟨rfl, rfl⟩

theorem markedAlike_addCloning (succeeds : definition.addCloning = .ok extended) :
    definition.MarkedAlike extended := by
  cases (addCloning_eq_ok definition).symm.trans succeeds
  exact ⟨rfl, rfl⟩

end Definition

namespace Control

theorem markedAlike_flagLifeCycle (definition : Definition) (node : NodePath) (phase : Phase) :
    definition.MarkedAlike (flagLifeCycle definition node phase) := by
  unfold flagLifeCycle
  split <;> exact ⟨rfl, rfl⟩

/-- Controllers leave no mark. -/
theorem agree_process_marked (built : Annotation) (path : NodePath) (definition : Definition)
    (phase : Phase) (context : Context) :
    Agree reporting context (process built path definition phase)
      (process built path definition phase)
      fun changed _ => definition.MarkedAlike (changed.getD definition) := by
  have extending : ∀ {result : Except MergeConflict Definition},
      (∀ changed, result = .ok changed → definition.MarkedAlike changed) →
      Agree reporting context (extended result) (extended result)
        fun changed _ => definition.MarkedAlike (changed.getD definition) := by
    intro result alike
    cases result with
    | ok changed => exact .pure trivial (alike changed rfl)
    | error conflict => exact .fail trivial (LoadError.isGrave_internal _)
  have rejecting : ∀ reason : String,
      Agree reporting context (reject definition built reason) (reject definition built reason)
        fun changed _ => definition.MarkedAlike (changed.getD definition) :=
    fun _ => .bind (Loading.agree_recordError _ _ _) fun _ _ _ _ _ => .pure trivial (.refl _)
  unfold process
  split
  · exact extending fun changed succeeds =>
      (markedAlike_flagLifeCycle ..).trans (Definition.markedAlike_addControl succeeds)
  · split
    · exact rejecting _
    · exact extending fun changed => Definition.markedAlike_addControl
  · split
    · exact rejecting _
    · exact extending fun changed => Definition.markedAlike_addControl
  · split
    · exact extending fun changed => Definition.markedAlike_addControl
    · exact rejecting _
  · exact extending fun changed => Definition.markedAlike_addCloning
  all_goals exact .pure trivial (.refl _)

end Control

namespace Singleton

/-- What holds a singleton is annotated as one. -/
theorem agree_spread_has (definition : Definition) (node : NodePath) (announced : Bool)
    (context : Context) :
    Agree reporting context (spread definition node announced) (spread definition node announced)
      fun changed _ =>
        (changed.getD definition).annotations.has Annotation.singletonKind = true := by
  have attached : (definition.annotations.attach (.ofType Annotation.singletonKind)
      Annotation.singleton).has Annotation.singletonKind = true :=
    Annotations.BuildsSingleton.has_of_mem
      (List.mem_append_right _ (List.mem_singleton_self _))
  unfold spread
  split
  · rename_i has
    exact .pure trivial has
  · cases announced with
    | true =>
        refine .bind (Loading.agree_warn _ _ _) ?_
        intro _ reached _ _ _
        exact .pure trivial attached
    | false => exact .pure trivial attached

end Singleton

namespace AnnotationRegistry

/-- What is done for a sub-component leaves a singleton one. -/
theorem agree_processor_single {kind : String} {processor : Processor}
    (found : predefined.processor? kind = some processor) (built : Annotation) (path : NodePath)
    (definition : Definition) (context : Context) :
    Agree reporting context (processor built path definition .onSubComponent)
      (processor built path definition .onSubComponent)
      fun changed _ => definition.StaysSingle (changed.getD definition) := by
  obtain ⟨descriptor, known, found⟩ := Option.bind_eq_some_iff.mp found
  have member := mem_predefinedKinds known
  have controls : Agree reporting context (Control.process built path definition .onSubComponent)
      (Control.process built path definition .onSubComponent)
      fun changed _ => definition.StaysSingle (changed.getD definition) :=
    (Control.agree_process_marked built path definition .onSubComponent context).mono
      fun _ _ _ _ alike => .of_same alike.annotations
  simp only [predefinedKinds, List.mem_cons, List.not_mem_nil, or_false] at member
  rcases member with rfl | rfl | rfl | rfl | rfl | rfl | rfl | rfl <;> cases found
  · exact (Singleton.agree_spread_has definition path true context).mono fun _ _ _ _ has _ => has
  · exact controls
  · exact controls
  · exact controls
  · exact controls
  · exact controls
  · exact .pure trivial id

theorem agree_runProcessor_spread (built : Annotation) (path : NodePath) (definition : Definition)
    (context : Context) :
    Agree reporting context (predefined.runProcessor .onSubComponent path definition built)
      (predefined.runProcessor .onSubComponent path definition built)
      fun changed _ => definition.StaysSingle changed ∧ (built = .singleton →
        changed.annotations.has Annotation.singletonKind = true) := by
  by_cases isSingleton : built = .singleton
  · cases isSingleton
    unfold runProcessor
    rw [show predefined.processor? Annotation.singleton.kind = _ from processor?_singleton]
    refine .bind (Singleton.agree_spread_has definition path true context) ?_
    exact fun _ _ _ _ has => .pure trivial ⟨fun _ => has, fun _ => has⟩
  · unfold runProcessor
    split
    · exact .fail trivial (LoadError.isGrave_internal _)
    · rename_i processor found
      refine .bind (agree_processor_single found built path definition context) ?_
      exact fun _ _ _ _ stays => .pure trivial ⟨stays, fun same => absurd same isSingleton⟩

/-- The annotations of a sub-component's definition are run in turn. -/
theorem agree_runProcessors_spread (built : List Annotation) (path : NodePath)
    (definition : Definition) (context : Context) :
    Agree reporting context (built.foldlM (predefined.runProcessor .onSubComponent path) definition)
      (built.foldlM (predefined.runProcessor .onSubComponent path) definition)
      fun changed _ => definition.StaysSingle changed ∧ (.singleton ∈ built →
        changed.annotations.has Annotation.singletonKind = true) := by
  refine (Agree.foldlM_all Definition.StaysSingle
    (fun (item : Annotation) (changed : Definition) (_ : Context) => item = .singleton →
      changed.annotations.has Annotation.singletonKind = true)
    (fun _ => id) (fun first second => second ∘ first)
    (fun _ _ _ _ _ moves _ _ _ has same => moves (has same)) trivial
    (fun item _ changed reached _ _ _ => agree_runProcessor_spread item path changed reached)).mono ?_
  rintro changed _ _ _ ⟨stays, all⟩
  exact ⟨stays, fun member => all _ member rfl⟩

end AnnotationRegistry

namespace Definition

/-- What a sub-component designates, by its position. -/
def part? (definition : Definition) (index : Nat) : Option DefinitionId :=
  definition.components[index]?.bind (·.resolvedId?)

variable {original changed : Definition}

theorem Keeps.part? (keeps : changed.Keeps original) (index : Nat) :
    changed.part? index = original.part? index := by
  have read : ∀ definition : Definition,
      definition.part? index = definition.links[index]?.bind fun link => link.1.bind (·.id) := by
    intro definition
    rw [Definition.links, List.getElem?_map, Option.bind_map]
    rfl
  rw [read, read, keeps.links]

end Definition

namespace AnnotationRegistry

/-- A definition that has a singleton among its parts is annotated as one after their turn. -/
theorem agree_processSubComponents_spread (indices : List Nat) (definition : Definition)
    (context : Context) :
    Agree reporting context (predefined.processSubComponents .onSubComponent definition indices)
      (predefined.processSubComponents .onSubComponent definition indices)
      fun changed _ => ∀ index ∈ indices, ∀ part, definition.part? index = some part →
        .singleton ∈ (context.definition part).annotations.typed →
          changed.annotations.has Annotation.singletonKind = true := by
  refine (Agree.foldlM_all
    (fun left right : Definition => left.Edits right ∧ left.StaysSingle right)
    (fun (index : Nat) (changed : Definition) (_ : Context) => ∀ part,
      definition.part? index = some part →
        .singleton ∈ (context.definition part).annotations.typed →
          changed.annotations.has Annotation.singletonKind = true)
    (fun value => ⟨.refl value, id⟩)
    (fun first second => ⟨first.1.trans second.1, second.2 ∘ first.2⟩)
    (fun _ _ _ _ _ moves _ _ _ has part isPart member => moves.2 (has part isPart member))
    trivial ?_).mono fun _ _ _ _ holds => holds.2
  rintro index - changed reached - ⟨edits, -⟩ reports
  have same := edits.keeps.part? index
  unfold processSubComponent
  change (changed.components[index]?.bind fun component => component.resolvedId?) = _ at same
  rw [same]
  cases isPart : definition.part? index with
  | none => exact .pure trivial ⟨⟨.refl changed, id⟩, nofun⟩
  | some part =>
      refine .read rfl (((agree_runProcessors isHarmless_predefined _ _ (.refl changed)).and
        (agree_runProcessors_spread _ _ changed reached)).mono ?_)
      rintro last _ _ _ ⟨further, stays, spreads⟩
      refine ⟨⟨further, stays⟩, fun other isOther member => spreads ?_⟩
      cases isOther
      rw [Reports.definition reports]
      exact List.mem_filter.mpr ⟨member, by decide⟩

variable {name : String} {id : DefinitionId} {context : Context}

/-- What is done for the parts that are listed is done for all parts whose definitions bear an
annotation for the phase. -/
theorem agree_processStoredSubComponents_done {built : Annotation}
    (isDue : built.phases.contains .onSubComponent = true) {Done : Nat → Definition → Prop}
    (making : Making name id context)
    (each : ∀ indices, Agree reporting context
      (predefined.processSubComponents .onSubComponent (context.definition id) indices)
      (predefined.processSubComponents .onSubComponent (context.definition id) indices)
      fun changed _ => ∀ index ∈ indices, ∀ part,
        (context.definition id).part? index = some part →
          built ∈ (context.definition part).annotations.typed → Done index changed) :
    Agree (editing name id) context (predefined.processStoredSubComponents id)
      (predefined.processStoredSubComponents id)
      fun _ reached => ∀ index part, (context.definition id).part? index = some part →
        built ∈ (context.definition part).annotations.typed →
          Done index (reached.definition id) := by
  have listed : ∀ index part, (context.definition id).part? index = some part →
      built ∈ (context.definition part).annotations.typed →
        index ∈ dueComponents .onSubComponent context (context.definition id) := by
    intro index part isPart member
    have within : index < (context.definition id).components.length := by
      obtain ⟨component, found, -⟩ := Option.bind_eq_some_iff.mp isPart
      exact (List.getElem?_eq_some_iff.mp found).1
    have designates : (context.definition id).components[index]?.bind (·.resolvedId?) = some part :=
      isPart
    refine List.mem_filter.mpr ⟨List.mem_range.mpr within, ?_⟩
    simp only [designates]
    have present : built ∈ due .onSubComponent (context.definition part).annotations :=
      List.mem_filter.mpr ⟨member, isDue⟩
    simpa using List.ne_nil_of_mem present
  refine .read rfl (.read rfl ?_)
  split
  · rename_i nothing
    exact .pure making fun index part isPart member => nomatch nothing ▸ listed index part isPart member
  · rename_i indices present
    have named := making.names.named
      (fun definition => !(dueComponents .onSubComponent context definition).isEmpty)
      (fun _ => rfl) (by simpa using present)
    refine (Loading.agree_replace_edited (fun changed _ => ∀ index part,
      (context.definition id).part? index = some part →
        built ∈ (context.definition part).annotations.typed → Done index changed) making named
      (((agree_processSubComponents isHarmless_predefined _ (.refl _)).and
        (each _)).mono fun _ _ _ _ holds => ⟨holds.1, fun index part isPart member =>
          holds.2 index (listed index part isPart member) part isPart member⟩)).mono ?_
    rintro _ reached _ _ ⟨before, changed, -, done, -, stored⟩
    exact stored ▸ done

/-- A composite of which a part is a singleton becomes one. -/
theorem agree_processStoredSubComponents_spread (making : Making name id context) :
    Agree (editing name id) context (predefined.processStoredSubComponents id)
      (predefined.processStoredSubComponents id)
      fun _ reached => ∀ index part, (context.definition id).part? index = some part →
        .singleton ∈ (context.definition part).annotations.typed →
          (reached.definition id).annotations.has Annotation.singletonKind = true :=
  agree_processStoredSubComponents_done (by decide) making fun indices =>
    agree_processSubComponents_spread indices _ context

end AnnotationRegistry

/-! ## Settling -/

namespace Singleton

/-- Only definitions that are designated matter. -/
theorem duplicates_congr {before after : Context} {parts : List (Component × DefinitionId)}
    (same : ∀ part ∈ parts, after.definition part.2 = before.definition part.2)
    (firstUses : Table String) :
    duplicates after firstUses parts = duplicates before firstUses parts := by
  induction parts generalizing firstUses with
  | nil => rfl
  | cons part rest induction =>
      obtain ⟨first, others⟩ := List.forall_mem_cons.mp same
      simp only [duplicates, first, induction others]

theorem isError_duplicates {context : Context} {firstUses : Table String}
    {parts : List (Component × DefinitionId)} :
    ∀ diagnostic ∈ duplicates context firstUses parts, diagnostic.isError = true := by
  induction parts generalizing firstUses with
  | nil => exact nofun
  | cons part rest induction =>
      unfold duplicates
      dsimp only
      split
      · exact induction
      · split
        · exact List.forall_mem_cons.mpr ⟨rfl, induction⟩
        · exact induction

/-- Where no duplicate is reported, singletons bear different names, also from those used before. -/
theorem apart_of_no_duplicates {context : Context} {firstUses : Table String}
    {parts : List (Component × DefinitionId)} (silent : duplicates context firstUses parts = []) :
    (∀ part ∈ parts, isSingleton (context.definition part.2) = true →
        firstUses.find? (context.definition part.2).name = none) ∧
      parts.Pairwise fun left right => isSingleton (context.definition right.2) = true →
        left.2 ≠ right.2 := by
  induction parts generalizing firstUses with
  | nil => exact ⟨nofun, .nil⟩
  | cons part rest induction =>
      unfold duplicates at silent
      dsimp only at silent
      split at silent
      · rename_i plain
        obtain ⟨unused, apart⟩ := induction silent
        refine ⟨List.forall_mem_cons.mpr ⟨fun single => ?_, unused⟩,
          List.pairwise_cons.mpr ⟨fun other _ single same => ?_, apart⟩⟩
        · simp [single] at plain
        · simp [same, single] at plain
      · split at silent
        · exact nomatch silent
        · rename_i isFirst
          obtain ⟨unused, apart⟩ := induction silent
          refine ⟨List.forall_mem_cons.mpr ⟨fun _ => isFirst, fun other member single => ?_⟩,
            List.pairwise_cons.mpr ⟨fun other member single same => ?_, apart⟩⟩
          · have fresh := unused other member single
            rw [Table.find?_insert] at fresh
            split at fresh
            · exact nomatch fresh
            · exact fresh
          · have fresh := unused other member single
            rw [Table.find?_insert, if_pos (by rw [same])] at fresh
            exact nomatch fresh

/-- A singleton is looked through for others that it holds twice. -/
def Settles (context : Context) (definition changed : Definition) (reached : Context) : Prop :=
  changed.decorations.singleton = true ∧
    (reached.log.errors = [] → duplicates context .empty definition.resolvedComponents = [])

theorem agree_settle_last (definition : Definition) (context : Context) :
    Agree reporting context (settle definition) (settle definition)
      fun changed reached => Settles context definition (changed.getD definition) reached := by
  refine .read rfl (.bind (Loading.agree_recordAll _) ?_)
  intro _ reached _ _ recorded
  have none : reached.log.errors = [] →
      duplicates context .empty definition.resolvedComponents = [] :=
    fun silent => List.eq_nil_iff_forall_not_mem.mpr fun diagnostic member =>
      recorded diagnostic member (isError_duplicates diagnostic member) silent
  split
  · rename_i decorated
    exact .pure trivial ⟨decorated, none⟩
  · exact .pure trivial ⟨rfl, none⟩

end Singleton

namespace AnnotationRegistry

open Adl.Singleton

theorem agree_runProcessor_settles {built : Annotation} (isPredefined : built.IsPredefined)
    (due : built.phases.contains .afterChecking = true) (path : NodePath) (definition : Definition)
    (context : Context) :
    Agree reporting context (predefined.runProcessor .afterChecking path definition built)
      (predefined.runProcessor .afterChecking path definition built)
      fun changed reached =>
        (definition.decorations.singleton = true → changed.decorations.singleton = true) ∧
          (built = .singleton → Settles context definition changed reached) := by
  unfold runProcessor
  rcases eq_of_afterChecking isPredefined due with rfl | rfl
  · rw [show predefined.processor? Annotation.singleton.kind = _ from processor?_singleton]
    refine .bind (agree_settle_last definition context) ?_
    exact fun _ _ _ _ settles => .pure trivial ⟨fun _ => settles.1, fun _ => settles⟩
  · rw [processor?_dump]
    exact .read rfl (.pure trivial ⟨id, nofun⟩)

/-- One definition follows from another in the last stage. -/
def Decorating (original changed : Definition) : Prop :=
  original.Decorates changed ∧
    (original.decorations.singleton = true → changed.decorations.singleton = true)

namespace Decorating

variable {first second third definition changed : Definition} {context before reached : Context}

theorem refl (definition : Definition) : Decorating definition definition :=
  ⟨⟨_, rfl⟩, id⟩

theorem trans (left : Decorating first second) (right : Decorating second third) :
    Decorating first third := by
  obtain ⟨⟨_, rfl⟩, decorated⟩ := left
  obtain ⟨⟨_, rfl⟩, further⟩ := right
  exact ⟨⟨_, rfl⟩, further ∘ decorated⟩

/-- What was found of a definition stays found. -/
theorem settles (decorating : Decorating first second) (reports : Reports before reached)
    (settles : Settles context definition first before) : Settles context definition second reached :=
  ⟨decorating.2 settles.1, fun silent => settles.2 (reports.evolves.errors_eq_nil silent)⟩

/-- Neither decorations nor reports matter for what is found. -/
theorem settles_of (decorating : Decorating definition first) (reports : Reports context before)
    (settles : Settles before first changed reached) : Settles context definition changed reached := by
  obtain ⟨⟨_, rfl⟩, -⟩ := decorating
  refine ⟨settles.1, fun silent => ?_⟩
  rw [← duplicates_congr fun part _ => reports.definition part.2]
  exact settles.2 silent

end Decorating

theorem agree_runProcessors_settles {built : List Annotation}
    (due : ∀ item ∈ built, item.IsPredefined ∧ item.phases.contains .afterChecking = true)
    (path : NodePath) (definition : Definition) (context : Context) :
    Agree reporting context (built.foldlM (predefined.runProcessor .afterChecking path) definition)
      (built.foldlM (predefined.runProcessor .afterChecking path) definition)
      fun changed reached => Decorating definition changed ∧
        (.singleton ∈ built → Settles context definition changed reached) := by
  refine (Agree.foldlM_all Decorating
    (fun (item : Annotation) (changed : Definition) (reached : Context) => item = .singleton →
      Settles context definition changed reached) .refl .trans
    (fun _ _ _ _ _ moves _ _ reports settles same => moves.settles reports (settles same)) trivial
    ?_).mono ?_
  · intro item member changed reached _ moves reports
    obtain ⟨isPredefined, isDue⟩ := due item member
    refine ((agree_runProcessor_last isPredefined isDue path ⟨changed.decorations, rfl⟩).and
      (agree_runProcessor_settles isPredefined isDue path changed reached)).mono ?_
    exact fun _ _ _ _ holds => ⟨⟨holds.1, holds.2.1⟩, fun same =>
      moves.settles_of reports (holds.2.2 same)⟩
  · exact fun _ _ _ _ holds => ⟨holds.1, fun member => holds.2 _ member rfl⟩

/-- In the last stage a singleton is settled. -/
theorem agree_processDefinition_settles {definition : Definition} (ordinary : definition.IsOrdinary)
    (context : Context) :
    Agree reporting context (predefined.processDefinition .afterChecking definition)
      (predefined.processDefinition .afterChecking definition)
      fun changed reached => .singleton ∈ definition.annotations.typed →
        Settles context definition changed reached := by
  refine (Agree.foldlM_all Decorating
    (fun (path : NodePath) (changed : Definition) (reached : Context) => path = .definition →
      .singleton ∈ definition.annotations.typed → Settles context definition changed reached)
    .refl .trans
    (fun _ _ _ _ _ moves _ _ reports settles same member =>
      moves.settles reports (settles same member)) trivial ?_).mono ?_
  · rintro path - changed reached - moves reports
    obtain ⟨decorations, rfl⟩ := moves.1
    have sameAt : { definition with decorations }.annotationsAt? path =
        definition.annotationsAt? path := by
      cases path <;> rfl
    unfold processElement
    rw [sameAt]
    refine (agree_runProcessors_settles (fun item member => ?_) path _ reached).mono ?_
    · obtain ⟨among, isDue⟩ := List.mem_filter.mp member
      refine ⟨?_, isDue⟩
      cases found : definition.annotationsAt? path with
      | none =>
          rw [found] at among
          exact nomatch among
      | some annotations =>
          rw [found] at among
          exact ordinary.at found item among
    · rintro changed later _ _ ⟨decorating, settles⟩
      refine ⟨decorating, ?_⟩
      rintro rfl member
      exact moves.settles_of reports (settles (List.mem_filter.mpr ⟨member, by decide⟩))
  · exact fun _ _ _ _ holds => holds.2 .definition (by simp [Definition.nodePaths]) rfl

variable {name : String} {id : DefinitionId} {context : Context}

theorem agree_processStored_settles (making : Making name id context)
    (ordinary : (context.definition id).IsOrdinary) :
    Agree (editing name id) context (predefined.processStored .afterChecking id)
      (predefined.processStored .afterChecking id)
      fun _ reached => .singleton ∈ (context.definition id).annotations.typed →
        Settles context (context.definition id) (reached.definition id) reached := by
  refine .read rfl ?_
  split
  · rename_i due
    have named := making.names.named (isDue .afterChecking) (fun _ => rfl) due
    refine (Loading.agree_replace_edited (fun changed reached =>
      .singleton ∈ (context.definition id).annotations.typed →
        Settles context (context.definition id) changed reached) making named
      ((agree_processDefinition isHarmless_predefined (.refl _)).and
        (agree_processDefinition_settles ordinary context))).mono ?_
    rintro _ reached _ _ ⟨before, changed, -, settles, same, stored⟩ member
    obtain ⟨decorated, apart⟩ := settles member
    rw [stored]
    exact ⟨decorated, fun silent => apart ((congrArg (·.log.errors) same).symm.trans silent)⟩
  · rename_i idle
    refine .pure making fun member => absurd (List.any_eq_true.mpr ⟨.definition, ?_, ?_⟩) idle
    · simp [Definition.nodePaths]
    · have present : Annotation.singleton ∈
          due .afterChecking (context.definition id).annotations :=
        List.mem_filter.mpr ⟨member, by decide⟩
      simpa [Definition.annotationsAt?] using List.ne_nil_of_mem present

end AnnotationRegistry

end Adl
