import Adl.Proofs.Annotation.Resting
import Adl.Proofs.Loading.Refusal
import Adl.Proofs.Template.Closure

namespace Adl

open Step Context

/-! What an instance is made of the generic definition. Up to its registration it is told of its
parts and given their parameters; its membrane and its bindings stay those of the generic
definition. -/

namespace Definition

/-- The definitions have the same membrane around the same bindings. -/
structure SharesMembrane (changed original : Definition) : Prop where
  interfaces : changed.interfaces = original.interfaces
  internalInterfaces : changed.internalInterfaces = original.internalInterfaces
  controllers : changed.controllers = original.controllers
  bindings : changed.bindings = original.bindings
  isAbstract : changed.isAbstract = original.isAbstract

variable {first second third : Definition}

theorem SharesMembrane.refl (definition : Definition) : definition.SharesMembrane definition :=
  ⟨rfl, rfl, rfl, rfl, rfl⟩

theorem SharesMembrane.trans (later : third.SharesMembrane second)
    (earlier : second.SharesMembrane first) : third.SharesMembrane first :=
  ⟨later.interfaces.trans earlier.interfaces,
    later.internalInterfaces.trans earlier.internalInterfaces,
    later.controllers.trans earlier.controllers, later.bindings.trans earlier.bindings,
    later.isAbstract.trans earlier.isAbstract⟩

/-- The one definition comes of the other by edits that leave its membrane and its bindings alone. -/
structure EditsInside (original changed : Definition) : Prop where
  edits : original.Edits changed
  shares : changed.SharesMembrane original

theorem EditsInside.refl (definition : Definition) : definition.EditsInside definition :=
  ⟨.refl definition, .refl definition⟩

theorem EditsInside.trans (earlier : first.EditsInside second) (later : second.EditsInside third) :
    first.EditsInside third :=
  ⟨earlier.edits.trans later.edits, later.shares.trans earlier.shares⟩

/-- What stages found or left of one definition, they find of the other. -/
structure Upholds (changed original : Definition) : Prop extends changed.Continues original where
  shares : changed.SharesMembrane original
  typeParameters : original.typeParameters = [] → changed.typeParameters = []
  merged : changed.decorations.extendsMerged = original.decorations.extendsMerged
  built : original.Everywhere Annotations.AreBuilt → changed.Everywhere Annotations.AreBuilt
  typed : original.Everywhere Annotations.AreBuilt → ∀ item ∈ changed.annotations.typed,
    item ∈ original.annotations.typed ∨ item = .singleton
  flags : ∀ index, original.IsFlagged index → changed.IsFlagged index

namespace Upholds

theorem trans (later : third.Upholds second) (earlier : second.Upholds first) : third.Upholds first where
  toSubsumes := later.toSubsumes.trans earlier.toSubsumes
  kind := later.kind.trans earlier.kind
  sharedImplementations :=
    List.Subset.trans earlier.sharedImplementations later.sharedImplementations
  shares := later.shares.trans earlier.shares
  typeParameters none := later.typeParameters (earlier.typeParameters none)
  merged := later.merged.trans earlier.merged
  built built := later.built (earlier.built built)
  typed built item member :=
    (later.typed (earlier.built built) item member).elim (earlier.typed built item) .inr
  flags index flagged := later.flags index (earlier.flags index flagged)

/-- Other references of sub-components do not matter. -/
theorem resolved {original : Definition} {components : List Component}
    (same : components.map Component.withoutReference =
      original.components.map Component.withoutReference) :
    { original with components }.Upholds original where
  toSubsumes := { Subsumes.refl original with
    components := by
      have names := congrArg (List.map Component.name) same
      rw [List.map_map, List.map_map] at names
      exact (show components.map (·.name) = original.components.map (·.name) from names) ▸
        List.Subset.refl _ }
  kind := rfl
  sharedImplementations := List.Subset.refl _
  shares := ⟨rfl, rfl, rfl, rfl, rfl⟩
  typeParameters := id
  merged := rfl
  built built := { built with
    components := by
      intro component member
      obtain ⟨other, among, isOther⟩ :=
        List.mem_map.mp (same ▸ List.mem_map_of_mem (f := Component.withoutReference) member)
      have annotations : other.withoutReference.annotations = component.withoutReference.annotations :=
        congrArg Component.annotations isOther
      exact annotations ▸ built.components other among }
  typed _ _ member := .inl member
  flags index flagged := by
    obtain ⟨component, found, flag⟩ := flagged
    have there := congrArg (·[index]?) same
    simp only [List.getElem?_map, found, Option.map_some] at there
    obtain ⟨other, foundOther, isOther⟩ := Option.map_eq_some_iff.mp there
    have flags : other.withoutReference.hasLifeCycleController =
        component.withoutReference.hasLifeCycleController :=
      congrArg Component.hasLifeCycleController isOther
    exact ⟨other, foundOther, flags.trans flag⟩

end Upholds

theorem EditsInside.upholds {original changed : Definition} (inside : original.EditsInside changed) :
    changed.Upholds original where
  toContinues := inside.edits.continues
  shares := inside.shares
  typeParameters none := inside.edits.typeParameters.trans none
  merged := inside.edits.keeps.extendsMerged
  built built := built.edits Annotations.AreBuilt.survives inside.edits
  typed built := (inside.edits.keepsAnnotations built).typed
  flags _ flagged := flagged.edits inside.edits

end Definition

theorem Component.hasLifeCycleController_instantiate {context : Context} {bindings : TypeBindings}
    {component : Component} : (component.instantiate context bindings).hasLifeCycleController =
      component.hasLifeCycleController := by
  unfold instantiate
  split
  · split <;> rfl
  · split
    · split <;> rfl
    · rfl

/-- A bare instance upholds what the generic definition is. -/
theorem InstanceRequest.upholds_bare {request : InstanceRequest} {context : Context} (name : String)
    (closed : (request.bare context name).typeParameters = []) :
    (request.bare context name).Upholds (context.definition request.generic) where
  toSubsumes := Definition.subsumes_bare request context name
  kind := Definition.kind_bare request context name
  sharedImplementations := List.Subset.refl _
  shares := ⟨rfl, rfl, rfl, rfl, rfl⟩
  typeParameters _ := closed
  merged := rfl
  built built := built.bare name
  typed _ _ member := .inl member
  flags index flagged := by
    obtain ⟨component, found, flag⟩ := flagged
    refine ⟨component.instantiate context request.bindings, ?_, ?_⟩
    · exact (List.getElem?_map ..).trans (congrArg (Option.map _) found)
    · rw [Component.hasLifeCycleController_instantiate, flag]

variable {context : Context} {definition : Definition} {phase : Phase}

/-- What is formed stays so. -/
theorem Definition.IsFormed.upheld {original changed : Definition} (formed : original.IsFormed)
    (upholds : changed.Upholds original) : changed.IsFormed where
  built := upholds.built formed.built
  merged := upholds.merged.trans formed.merged
  granted item member isDue := by
    rcases upholds.typed formed.built item member with among | rfl
    · exact (formed.granted item among isDue).continued upholds.toContinues
    · exact absurd isDue (by decide)
  interfaces := upholds.shares.interfaces ▸ formed.interfaces
  passed composite := by
    have shares := upholds.shares
    rw [isComposite, upholds.kind] at composite
    unfold delegatedInterfaces
    rw [shares.interfaces, shares.controllers, shares.bindings]
    exact formed.passed composite
  first := upholds.shares.interfaces ▸ formed.first

/-! ## Annotations -/

namespace Singleton

/-- Marks of singletons are edits inside of the membrane. -/
theorem agree_process_inside (built : Annotation) (path : NodePath) (definition : Definition)
    (context : Context) :
    Agree reporting context (process built path definition phase) (process built path definition phase)
      fun changed _ => definition.EditsInside (changed.getD definition) := by
  have shares : Agree reporting context (process built path definition phase)
      (process built path definition phase)
      fun changed _ => (changed.getD definition).SharesMembrane definition := by
    have settles : Agree reporting context (settle definition) (settle definition)
        fun changed _ => (changed.getD definition).SharesMembrane definition := by
      refine (AnnotationRegistry.agree_settle definition context).mono ?_
      rintro changed _ _ _ ⟨decorations, same⟩
      rw [same]
      exact ⟨rfl, rfl, rfl, rfl, rfl⟩
    have spreads : ∀ announced, Agree reporting context (spread definition path announced)
        (spread definition path announced)
        fun changed _ => (changed.getD definition).SharesMembrane definition := by
      intro announced
      unfold spread
      split
      · exact .pure trivial (.refl definition)
      · cases announced with
        | true =>
            exact .bind (Loading.agree_warn _ _ _) fun _ _ _ _ _ =>
              .pure trivial ⟨rfl, rfl, rfl, rfl, rfl⟩
        | false => exact .pure trivial ⟨rfl, rfl, rfl, rfl, rfl⟩
    unfold process
    split
    · exact settles
    · exact settles
    · exact spreads true
    · exact spreads false
    all_goals exact .pure trivial (.refl definition)
  exact ((AnnotationRegistry.isHarmless_predefined.processors _ _
    AnnotationRegistry.processor?_singleton built path definition phase context).and shares).mono
      fun _ _ _ _ holds => ⟨holds.1, holds.2⟩

end Singleton

namespace AnnotationRegistry

theorem agree_runProcessor_inside (path : NodePath) (definition : Definition) (context : Context) :
    Agree reporting context (predefined.runProcessor phase path definition .singleton)
      (predefined.runProcessor phase path definition .singleton)
      fun changed _ => definition.EditsInside changed := by
  unfold runProcessor
  rw [show predefined.processor? Annotation.singleton.kind = some Singleton.process from rfl]
  refine .bind (Singleton.agree_process_inside .singleton path definition context) ?_
  exact fun _ _ _ _ inside => .pure trivial inside

/-- Who minds that a part has a life cycle is not changed by it. -/
theorem runProcessor_lifeCycle {index : Nat} (minds : MindsLifeCycle definition index) :
    predefined.runProcessor phase (.component index) definition .lifeCycleController context =
      (.ok definition, context) :=
  runProcessor_of_process (show predefined.processor? _ = some Control.process from rfl)
    (Control.process_of_grants minds.2 (minds.1.flagLifeCycle_eq phase))

/-- Parts are at most singletons, or have a life cycle that is minded already. -/
def PartsMatter (phase : Phase) (context : Context) (definition : Definition) : Prop :=
  ∀ index part, definition.part? index = some part →
    ∀ item ∈ (context.definition part).annotations.typed, item.phases.contains phase = true →
      item = .singleton ∨ item = .lifeCycleController ∧ MindsLifeCycle definition index

/-- What is told of such parts are edits inside of the membrane. -/
theorem agree_processSubComponents_inside (parts : PartsMatter phase context definition)
    (indices : List Nat) :
    Agree reporting context (predefined.processSubComponents phase definition indices)
      (predefined.processSubComponents phase definition indices)
      fun changed _ => definition.EditsInside changed := by
  refine Agree.mono (.foldlM (fun (changed : Definition) (reached : Context) =>
    definition.EditsInside changed ∧ Reports context reached) trivial ⟨.refl definition, .refl context⟩
    ?_) fun _ _ _ _ holds => holds.1
  rintro index - changed reached - ⟨inside, reports⟩
  unfold processSubComponent
  have same := inside.edits.keeps.part? index
  change (changed.components[index]?.bind fun component => component.resolvedId?) = _ at same
  rw [same]
  cases isPart : definition.part? index with
  | none => exact .pure trivial ⟨inside, reports⟩
  | some part =>
      refine .read rfl ?_
      rw [reports.definition]
      refine Agree.mono (.foldlM (fun (changed : Definition) (_ : Context) =>
        definition.EditsInside changed) trivial inside ?_) fun _ _ _ further holds =>
          ⟨holds, reports.trans further⟩
      intro item member changed later _ inside
      obtain ⟨among, isDue⟩ := List.mem_filter.mp member
      rcases parts index part isPart item among isDue with rfl | ⟨rfl, minds⟩
      · exact (agree_runProcessor_inside (.component index) changed later).mono
          fun _ _ _ _ further => inside.trans further
      · exact .run (runProcessor_lifeCycle (minds.edits inside.edits)) trivial (.refl later) inside

variable {name : String} {id : DefinitionId}

theorem agree_processStoredSubComponents_inside (making : Making name id context)
    (parts : PartsMatter .onSubComponent context (context.definition id)) :
    Agree (editing name id) context (predefined.processStoredSubComponents id)
      (predefined.processStoredSubComponents id)
      fun _ reached => (context.definition id).EditsInside (reached.definition id) := by
  refine .read rfl (.read rfl ?_)
  split
  · exact .pure making (.refl _)
  · rename_i indices present
    have named := making.names.named
      (fun definition => !(dueComponents .onSubComponent context definition).isEmpty)
      (fun _ => rfl) (by simpa using present)
    refine (Loading.agree_replace_edited (fun changed _ => (context.definition id).EditsInside changed)
      making named ((agree_processSubComponents_inside parts _).mono fun _ _ _ _ inside =>
        ⟨inside.edits, inside⟩)).mono ?_
    rintro _ reached _ _ ⟨_, changed, -, inside, -, stored⟩
    exact stored ▸ inside

/-- Of predefined annotations, only that of singletons is processed for an instance that is made. -/
theorem eq_of_template {built : Annotation} (isPredefined : built.IsPredefined)
    (isTemplate : phase = .onTemplateSubComponent ∨ phase = .afterTemplateInstantiate)
    (due : built.phases.contains phase = true) : built = .singleton := by
  have early : (MemberSet.single Phase.afterExtends).contains phase = false := by
    rcases isTemplate with rfl | rfl <;> decide
  rcases isPredefined.cases with rfl | rfl | rfl | ⟨_, rfl⟩ | ⟨_, rfl⟩ | rfl | rfl | rfl
  · rcases isTemplate with rfl | rfl <;> exact absurd due (by decide)
  · rfl
  · rcases isTemplate with rfl | rfl <;> exact absurd due (by decide)
  · cases early.symm.trans due
  · cases early.symm.trans due
  · cases early.symm.trans due
  · cases early.symm.trans due
  · rcases isTemplate with rfl | rfl <;> exact absurd due (by decide)

theorem agree_processDefinition_inside (ordinary : definition.IsOrdinary) :
    Agree reporting context (predefined.processDefinition .afterTemplateInstantiate definition)
      (predefined.processDefinition .afterTemplateInstantiate definition)
      fun changed _ => definition.EditsInside changed := by
  refine .foldlM (fun (changed : Definition) _ => definition.EditsInside changed) trivial
    (.refl definition) ?_
  intro path _ draft reached _ draftInside
  refine .foldlM (fun (changed : Definition) _ => definition.EditsInside changed) trivial draftInside ?_
  intro built member changed later _ inside
  obtain ⟨among, isDue⟩ := List.mem_filter.mp member
  have isPredefined : built.IsPredefined := by
    cases found : draft.annotationsAt? path with
    | none =>
        rw [found] at among
        exact nomatch among
    | some annotations =>
        rw [found] at among
        exact (ordinary.edits draftInside.edits).at found built among
  rw [eq_of_template isPredefined (.inr rfl) isDue]
  exact (agree_runProcessor_inside path changed later).mono fun _ _ _ _ further =>
    inside.trans further

end AnnotationRegistry

/-! ## What is made -/

theorem Definition.sharesMembrane_ensureParameter (definition : Definition) (name : String) :
    (definition.ensureParameter name).SharesMembrane definition := by
  unfold ensureParameter
  split
  · exact .refl definition
  · exact ⟨rfl, rfl, rfl, rfl, rfl⟩

namespace InstanceRequest

variable {request : InstanceRequest} {name : String}

/-- Parameters that are taken over do not touch the membrane. -/
theorem agree_exposeParameters_shares (definition : Definition) (context : Context) :
    Agree reporting context (request.exposeParameters name definition)
      (request.exposeParameters name definition)
      fun changed _ => changed.SharesMembrane definition := by
  have exposed : ∀ (index : Nat) (typeParameter bound parameter : String) (draft : Definition)
      (reached : Context), Agree reporting reached
        (exposeParameter name index typeParameter bound draft parameter)
        (exposeParameter name index typeParameter bound draft parameter)
        fun changed _ => changed.SharesMembrane draft := by
    intro index typeParameter bound parameter draft reached
    have shares := draft.sharesMembrane_ensureParameter (Hoisted.name typeParameter parameter)
    refine .read rfl ?_
    split
    · exact .through (fun _ _ => True) (Loading.agree_infer _ _ _).forget fun _ _ _ _ _ =>
        .pure trivial { shares with }
    · exact .pure trivial { shares with }
  refine .read rfl (.foldlM (fun (changed : Definition) _ => changed.SharesMembrane definition)
    trivial (.refl definition) ?_)
  rintro placeholder - draft reached - shares
  unfold exposeComponent
  split
  · exact .pure trivial shares
  · split
    · refine .read rfl (.foldlM (fun (changed : Definition) _ => changed.SharesMembrane definition)
        trivial shares ?_)
      exact fun parameter _ changed later _ shares =>
        (exposed _ _ _ parameter changed later).mono fun _ _ _ _ further => further.trans shares
    · exact .pure trivial shares

/-- An instance is made of the bare one by edits inside of the membrane, where annotations are
predefined. -/
theorem agree_build_inside (ordinary : (request.bare context name).IsOrdinary)
    (parts : ∀ index part, (request.bare context name).part? index = some part →
      (context.definition part).annotations.ArePredefined) :
    Agree reporting context (request.build .predefined layers name)
      (request.build .predefined layers name)
      fun made _ => (request.bare context name).EditsInside made := by
  refine .read rfl (Agree.mono (.foldlM (fun (made : Definition) (reached : Context) =>
    (request.bare context name).EditsInside made ∧ Reports context reached) trivial
    ⟨.refl _, .refl context⟩ ?_) fun _ _ _ _ holds => holds.1)
  rintro layer - made reached - ⟨inside, reports⟩
  cases layer with
  | parameters =>
      refine ((agree_exposeParameters (reports.definition _) inside.edits).and
        (agree_exposeParameters_shares made reached)).mono ?_
      rintro changed later - further ⟨edits, shares⟩
      exact ⟨⟨edits, shares.trans inside.shares⟩, reports.trans further⟩
  | annotations =>
      have matter : AnnotationRegistry.PartsMatter .onTemplateSubComponent reached made := by
        intro index part isPart item member isDue
        have wasPart := (inside.edits.keeps.part? index).symm.trans isPart
        rw [reports.definition] at member
        exact .inl (AnnotationRegistry.eq_of_template (parts index part wasPart item member)
          (.inl rfl) isDue)
      refine .read rfl (.bind (AnnotationRegistry.agree_processSubComponents_inside matter _) ?_)
      intro told later _ toldReports toldInside
      have toldInside := inside.trans toldInside
      refine (AnnotationRegistry.agree_processDefinition_inside (ordinary.edits toldInside.edits)).mono ?_
      exact fun _ _ _ further last =>
        ⟨toldInside.trans last, (reports.trans toldReports).trans further⟩

/-! ## What is loaded -/

variable {registry : AnnotationRegistry} {load : String → Loading DefinitionId}

/-- An instance that is known is not made again. -/
theorem load_of_known (known : context.isKnown (request.instanceName context) = true) :
    request.load registry load context = load (request.instanceName context) context := by
  refine (Step.bind_of_ok rfl).trans ?_
  dsimp only
  rw [known]
  rfl

/-- An instance that is not known is made, registered and loaded. -/
theorem load_of_unknown (unknown : context.isKnown (request.instanceName context) = false)
    {made : Definition} {built : Context}
    (builds : request.build registry layers (request.instanceName context) context =
      (.ok made, built)) :
    request.load registry load context = load (request.instanceName context)
      (built.register (request.instanceName context) made).2 := by
  refine (Step.bind_of_ok rfl).trans ?_
  dsimp only
  rw [unknown]
  exact (Step.bind_of_ok builds).trans (Step.bind_of_ok rfl)

theorem load_of_unmade (unknown : context.isKnown (request.instanceName context) = false)
    {error : LoadError} {built : Context}
    (fails : request.build registry layers (request.instanceName context) context =
      (.error error, built)) :
    request.load registry load context = (.error error, built) := by
  refine (Step.bind_of_ok rfl).trans ?_
  dsimp only
  rw [unknown]
  exact Step.bind_of_error fails

end InstanceRequest

end Adl
