import Adl.Proofs.Annotation.Resting
import Adl.Proofs.Binding.Resting

namespace Adl

open Step Context

/-! Stages that come to a definition a second time. What they look for is there, and they leave
the definition as it is. -/

variable {context : Context} {id : DefinitionId} {definition : Definition}

/-! ## Declarations -/

theorem repeatedBy_of_nodup {α : Type} {key : α → String} {seen : List String} {items : List α}
    (fresh : ∀ item ∈ items, key item ∉ seen) (distinct : (items.map key).Nodup) :
    repeatedBy key seen items = [] := by
  induction items generalizing seen with
  | nil => rfl
  | cons item rest induction =>
      obtain ⟨isNew, distinct⟩ := List.nodup_cons.mp distinct
      unfold repeatedBy
      rw [if_neg (by simpa using fresh item List.mem_cons_self)]
      refine induction (fun other member known => ?_) distinct
      rcases List.mem_cons.mp known with same | known
      · exact isNew (same ▸ List.mem_map_of_mem member)
      · exact fresh other (List.mem_cons_of_mem _ member) known

/-- Where keys are different, no repetition is reported. -/
theorem forM_repeatedBy_of_nodup {α : Type} {key : α → String} {items : List α}
    {report : α → Loading Unit} (distinct : (items.map key).Nodup) :
    (repeatedBy key [] items).forM report context = (.ok (), context) := by
  rw [repeatedBy_of_nodup (fun _ _ => List.not_mem_nil) distinct]
  rfl

namespace TypeParameters

theorem check_of_declared (resolve : Resolver)
    (distinct : (context.definition id).typeParameterNames.Nodup)
    (finds : ∀ parameter ∈ (context.definition id).typeParameters, parameter.FindsType)
    (declares : (context.definition id).DeclaresPlaceholders) :
    check resolve id context = (.ok (), context) := by
  refine read_bind rfl ?_
  split
  · refine Loading.revise_of_stays ?_
    have unrepeated : recordRepeated (context.definition id) context = (.ok (), context) :=
      forM_repeatedBy_of_nodup distinct
    have conforming : Drafting.each (fun _ => checkConformance resolve id)
        (context, (context.definition id).typeParameters) =
          (.ok ((context.definition id).typeParameters.map fun _ => ()),
            (context, (context.definition id).typeParameters)) := by
      refine (Drafting.each_of_changes (fun _ => ()) fun _ parameter member => ?_).trans
        (by rw [List.map_id])
      refine read_bind rfl ?_
      cases conforms : parameter.conformsTo with
      | none => rfl
      | some reference =>
          dsimp only
          rw [if_pos (finds parameter member reference conforms)]
          rfl
    refine (bind_of_ok (Drafting.lift_of_ok unrepeated)).trans
      ((bind_of_ok (Drafting.onPart_of_ok conforming)).trans (forM_of_stays fun component member => ?_))
    refine read_bind rfl (Drafting.lift_of_ok ?_)
    change checkPlaceholder (context.definition id) component context = _
    unfold checkPlaceholder
    cases isPlaceholder : component.typeParameter with
    | none => rfl
    | some parameter =>
        dsimp only
        rw [if_pos (declares component member parameter isPlaceholder)]
        rfl
  · rfl

end TypeParameters

theorem checkInterfaces_of_silent
    (silent : interfaceProblems [] (context.definition id).interfaces = []) :
    checkInterfaces id context = (.ok (), context) := by
  refine read_bind rfl ?_
  rw [silent]
  rfl

theorem checkParameters_of_nodup
    (distinct : ((context.definition id).parameters.map (·.name)).Nodup) :
    checkParameters id context = (.ok (), context) :=
  read_bind rfl (forM_repeatedBy_of_nodup distinct)

/-! ## Parts and parents -/

/-- A sub-component with its decoration as it is found in a context. -/
def Component.reattached (context : Context) (component : Component) : Component :=
  { component with
    resolved := component.resolved.bind fun resolved =>
      (context.resolved? resolved).map fun id => ⟨resolved.name, some id⟩ }

namespace SubComponents

/-- Decorations that still hold are taken over. -/
theorem resolveAll_of_attached (resolver : Resolver) (apart : (context.definition id).NamesApart)
    (attached : ∀ component ∈ (context.definition id).components,
      (component.reattached context).resolved.isSome = true ∨
        component.resolved = none ∧ component.definition = none) :
    resolveAll resolver id context =
      (.ok (), context.replace id { context.definition id with
        components := (context.definition id).components.map (·.reattached context) }) := by
  refine read_bind rfl ?_
  split
  · refine Loading.revise_of_ok ?_
    have unrepeated : recordRepeated (context.definition id) context = (.ok (), context) :=
      forM_repeatedBy_of_nodup apart
    have resolving : Drafting.each (fun _ => resolve resolver id)
        (context, (context.definition id).components) =
          (.ok ((context.definition id).components.map fun _ => ()),
            (context, (context.definition id).components.map (·.reattached context))) := by
      refine Drafting.each_of_changes (fun _ => ()) fun _ component member => ?_
      refine read_bind rfl (read_bind rfl ?_)
      rcases attached component member with found | ⟨undecorated, unnamed⟩
      · obtain ⟨resolved, isFound⟩ := Option.isSome_iff_exists.mp found
        have known : (component.resolved.bind fun resolved =>
            (context.resolved? resolved).map fun id => (⟨resolved.name, some id⟩ : Resolved)) =
              some resolved := isFound
        simp only [known, Component.reattached]
        rfl
      · have same : component.reattached context = component := by
          rw [Component.reattached, undecorated, Option.bind_none, ← undecorated]
        rw [same, undecorated, unnamed]
        rfl
    exact (bind_of_ok (Drafting.lift_of_ok unrepeated)).trans
      (bind_of_ok (Drafting.onPart_of_ok resolving))
  · rename_i empty
    have none : (context.definition id).components = [] := by simpa using empty
    rw [none, List.map_nil, ← none, replace_definition]
    rfl

end SubComponents

theorem Parents.merge_of_merged (resolver : Resolver) (load : String → Loading DefinitionId)
    (merged : (context.definition id).decorations.extendsMerged = true) :
    merge resolver load id context = (.ok (), context) := by
  refine read_bind rfl ?_
  rw [if_pos merged]
  rfl

/-! ## The membrane -/

theorem delegateInterfaces_of_passed (passed : (context.definition id).isComposite = true →
      (context.definition id).delegatedInterfaces = []) :
    delegateInterfaces id context = (.ok (), context) := by
  refine read_bind rfl ?_
  split
  · rename_i composite
    rw [passed composite]
    rfl
  · rfl

theorem completeMembrane_of_complete (complete : (context.definition id).membraneProblem? = none)
    (first : (context.definition id).componentInterfaceFirst = context.definition id) :
    completeMembrane id context = (.ok (), context) := by
  refine read_bind rfl ?_
  unfold Definition.membraneProblem? at complete
  rw [complete]
  exact Loading.replace_of_same first

/-! ## Attributes -/

namespace Attribute

/-- What is reported is no error, and types are inferred that are known. -/
def inferring (known : Context) (errors : List Diagnostic) : Discipline Context where
  Valid context := context.KeepsTypes known ∧ context.log.errors = errors
  Leads := Reports
  Fails _ := False
  refl := Reports.refl
  trans := Reports.trans

variable {known : Context} {errors : List Diagnostic} {owner : Definition} {declared : Attribute}

theorem agree_checkNumber_typed (valid : (inferring known errors).Valid context)
    {type : ParameterType} {value : Int64} (accepted : type.accepts (.number value) = true) :
    Agree (inferring known errors) context (checkNumber declared type value)
      (checkNumber declared type value) fun _ _ => True := by
  unfold checkNumber
  split
  · rename_i isString
    cases isString
    exact nomatch accepted
  · split
    · exact .run rfl valid (Loading.agree_warn _ _ _).leads trivial
    · exact .pure valid trivial

theorem agree_checkReference_typed (valid : (inferring known errors).Valid context)
    {type : ParameterType} {parameter : String} (declares : owner.hasParameter parameter = true)
    (inferred : known.inferredType? owner.name parameter = some type) :
    Agree (inferring known errors) context (checkReference owner declared type parameter)
      (checkReference owner declared type parameter) fun _ _ => True := by
  unfold checkReference
  rw [if_neg (by simp [declares])]
  have further : (context.infer owner.name parameter type).KeepsTypes known := by
    intro other used kept found
    rw [Loading.inferredType?_infer] at found
    split at found
    · rename_i same
      obtain ⟨rfl, rfl⟩ := same
      rw [← found, inferred]
      cases earlier : context.inferredType? owner.name parameter with
      | none => rfl
      | some type => exact inferred.symm.trans (valid.1 _ _ _ earlier)
    · exact valid.1 _ _ _ found
  have reports := Loading.reports_infer context owner.name parameter type
  have silent : (context.infer owner.name parameter type).log.errors = errors := by
    rw [← valid.2]
    unfold Context.infer
    split <;> rfl
  refine .through (fun previous _ => ∀ earlier, previous = some earlier → earlier = type)
    (.run rfl ⟨further, silent⟩ reports fun earlier isEarlier => ?_) ?_
  · exact Option.some.inj ((valid.1 _ _ _ isEarlier).symm.trans inferred)
  · intro previous reached valid _ same
    cases previous with
    | none => exact .pure valid trivial
    | some earlier =>
        cases same earlier rfl
        simp only [bne_self_eq_false, Bool.false_eq_true, if_false]
        exact .pure valid trivial

theorem agree_checkText_typed (valid : (inferring known errors).Valid context)
    {type : ParameterType} (value : Value) (isString : type = .string) :
    Agree (inferring known errors) context (checkText declared type value)
      (checkText declared type value) fun _ _ => True := by
  cases isString
  exact .pure valid trivial

/-- A typed attribute is as it is to be. -/
theorem agree_settle_typed (valid : (inferring known errors).Valid context)
    (typed : declared.IsTyped owner known) :
    Agree ((inferring known errors).drafting fun _ draft =>
        declared.IsTyped owner known ∧ draft = declared) (context, declared)
      (settle owner) (settle owner) fun _ _ => True := by
  have lifted : ∀ {step : Loading Unit},
      Agree (inferring known errors) context step step (fun _ _ => True) →
      Agree ((inferring known errors).drafting fun _ draft =>
          declared.IsTyped owner known ∧ draft = declared) (context, declared)
        (liftM step : Revising Attribute Unit) (liftM step) fun _ _ => True :=
    fun agree => (Drafting.agree_lift (Discipline.lasting_const _ fun draft =>
      declared.IsTyped owner known ∧ draft = declared) valid ⟨typed, rfl⟩ agree).forget
  obtain ⟨value, isValue, holds⟩ := id typed
  refine .read rfl ?_
  dsimp only
  rw [isValue]
  cases value with
  | number value => exact lifted (agree_checkNumber_typed valid holds)
  | reference parameter => exact lifted (agree_checkReference_typed valid holds.1 holds.2)
  | string | null =>
      refine lifted (agree_checkText_typed valid _ ?_)
      exact (by simpa [ParameterType.accepts, ParameterType.ofLiteral?] using holds :
        _ = declared.type).symm

end Attribute

/-- Typed attributes stay as they are. Their check reports no error, and infers no type but those
that are known. -/
theorem settleAttributes_of_typed {known : Context} (types : context.KeepsTypes known)
    (typed : ∀ declared ∈ (context.definition id).attributes,
      declared.IsTyped (context.definition id) known) :
    ∃ reached, settleAttributes id context = (.ok (), reached) ∧ Reports context reached ∧
      reached.log.errors = context.log.errors ∧ reached.KeepsTypes known := by
  obtain empty | present : (context.definition id).attributes.isEmpty = true ∨
      (context.definition id).attributes.isEmpty = false := by
    cases (context.definition id).attributes <;> simp
  · refine ⟨context, read_bind rfl ?_, .refl context, rfl, types⟩
    rw [empty]
    rfl
  · have visited : Agree ((Attribute.inferring known context.log.errors).drafting fun _ changed =>
          List.Forall₂ (fun item changed => item.IsTyped (context.definition id) known ∧ changed = item)
            (context.definition id).attributes changed)
        (context, (context.definition id).attributes)
        (Drafting.each fun _ => Attribute.settle (context.definition id))
        (Drafting.each fun _ => Attribute.settle (context.definition id)) fun _ _ => True := by
      exact (Drafting.agree_each (fun declared => Discipline.lasting_const _ fun draft =>
          declared.IsTyped (context.definition id) known ∧ draft = declared)
        (fun _ _ => Discipline.lasting_const _ fun _ => True)
        (show (Attribute.inferring known context.log.errors).Valid context from ⟨types, rfl⟩)
        (fun declared member => ⟨typed declared member, rfl⟩)
        fun _ _ _ valid _ good => Attribute.agree_settle_typed valid good.1).forget
    have valid := visited.valid
    have reports := visited.leads
    have ended := visited.ended
    rcases outcome : Drafting.each (fun _ => Attribute.settle (context.definition id))
      (context, (context.definition id).attributes) with ⟨result, reached, changed⟩
    rw [outcome] at valid reports ended
    have same : (context.definition id).attributes = changed :=
      List.forall₂_eq_eq_eq ▸ valid.2.imp fun _ _ holds => holds.2.symm
    cases result with
    | error error => exact ended.elim
    | ok values =>
        have reports : Reports context reached := reports
        refine ⟨reached, read_bind rfl ?_, reports, valid.1.2, valid.1.1⟩
        rw [present, if_pos (by rfl)]
        have stored : reached.replace id { context.definition id with attributes := changed } =
            reached := by
          rw [← same, ← reports.definition, replace_definition]
        refine (Loading.revise_of_ok ?_).trans (congrArg (Prod.mk _) stored)
        exact bind_of_ok (Drafting.onPart_of_ok outcome)

/-! ## The stages -/

/-- A registered definition is found. -/
theorem Sources.find_of_registered {frontEnd : FrontEnd} {name : String}
    (registered : context.registered.find? name = some id) :
    find frontEnd name context = (.ok id, context) := by
  refine read_bind rfl ?_
  simp only [registered]
  rfl

/-- It is taken through the stages. -/
theorem FrontEnd.runStages_of_registered {frontEnd : FrontEnd} {name : String}
    (load : String → Loading DefinitionId) (stages : List Stage)
    (registered : context.registered.find? name = some id) :
    ∃ trace, frontEnd.runStages load stages name context = (do
      stages.forM (Stage.run frontEnd load name id)
      return id : Loading DefinitionId) { context with trace } := by
  obtain ⟨trace, counts⟩ := frontEnd.exists_runStages load stages name context
  exact ⟨trace, counts.trans (bind_of_ok (Sources.find_of_registered registered))⟩

/-- What the stages look for is there. -/
structure Definition.IsSettled (extends? : String → String → Bool) (context : Context)
    (definition : Definition) : Prop where
  built : definition.Everywhere Annotations.AreBuilt
  merged : definition.decorations.extendsMerged = true
  granted : ∀ item ∈ definition.annotations.typed, item.phases.contains .afterExtends = true →
    definition.Grants item.directive
  minds : AnnotationRegistry.MindsParts context definition
  interfaces : interfaceProblems [] definition.interfaces = []
  passed : definition.isComposite = true → definition.delegatedInterfaces = []
  complete : definition.membraneProblem? = none
  first : definition.componentInterfaceFirst = definition
  expanded : ∀ binding ∈ definition.bindings, definition.expansion? context binding = none
  single : (definition.bindings.map (·.id)).Nodup
  checked : ∀ binding ∈ definition.bindings,
    binding.check definition context extends? = .ok binding.castRequired
  covered : definition.isComposite = true → definition.isAbstract = false →
    definition.unbound context = []
  parameters : (definition.parameters.map (·.name)).Nodup
  singles : .singleton ∈ definition.annotations.typed → definition.decorations.singleton = true ∧
    Singleton.duplicates context .empty definition.resolvedComponents = []

namespace Stage

variable {frontEnd : FrontEnd}

/-- The stages that come after the parts were resolved and leave a settled definition alone. -/
def resting : List Stage :=
  [ .parents, .process .afterExtends, .subComponentAnnotations, .interfaces, .delegation, .membrane,
    .expandBindings, .checkBindings, .coverage, .parameters ]

theorem run_of_settled (predefined : frontEnd.registry = .predefined)
    (load : String → Loading DefinitionId) (name : String)
    (settled : (context.definition id).IsSettled frontEnd.signatureExtends context) :
    ∀ stage ∈ resting, run frontEnd load name id stage context = (.ok (), context) := by
  intro stage member
  simp only [resting, List.mem_cons, List.not_mem_nil, or_false] at member
  rcases member with rfl | rfl | rfl | rfl | rfl | rfl | rfl | rfl | rfl | rfl <;>
    simp only [run, predefined]
  · exact Parents.merge_of_merged _ load settled.merged
  · exact AnnotationRegistry.processStored_afterExtends settled.built settled.granted
  · exact AnnotationRegistry.processStoredSubComponents_of_minds settled.minds
  · exact checkInterfaces_of_silent settled.interfaces
  · exact delegateInterfaces_of_passed settled.passed
  · exact completeMembrane_of_complete settled.complete settled.first
  · exact onBindings_of_stays (normalizeBindings_of_expanded settled.expanded settled.single)
  · exact onBindings_of_stays (checkBindings_of_checked settled.checked)
  · exact requireBound_of_covered name settled.covered
  · exact checkParameters_of_nodup settled.parameters

/-- A settled definition passes the stages, and stays as it is. -/
theorem forM_of_settled (predefined : frontEnd.registry = .predefined)
    (load : String → Loading DefinitionId) (name : String)
    (settled : (context.definition id).IsSettled frontEnd.signatureExtends context)
    {known : Context} (types : context.KeepsTypes known)
    (typed : ∀ declared ∈ (context.definition id).attributes,
      declared.IsTyped (context.definition id) known) :
    ∃ reached, (resting ++ [Stage.attributes, .process .afterChecking]).forM
        (run frontEnd load name id) context = (.ok (), reached) ∧ Reports context reached ∧
      reached.log.errors = context.log.errors ∧ reached.KeepsTypes known := by
  obtain ⟨reached, ranAttributes, reports, errors, further⟩ :=
    settleAttributes_of_typed types typed
  have same := reports.definition
  have ranLast : run frontEnd load name id (.process .afterChecking) reached = (.ok (), reached) := by
    simp only [run, predefined]
    refine AnnotationRegistry.processStored_afterChecking (same id ▸ settled.built) ?_
    rw [same id, Singleton.duplicates_congr fun part _ => same part.2]
    exact settled.singles
  refine ⟨reached, ?_, reports, errors, further⟩
  rw [List.forM_eq_forM, List.forM_append]
  refine (bind_of_ok (forM_of_stays (run_of_settled predefined load name settled))).trans ?_
  rw [List.forM_cons, bind_of_ok (show run frontEnd load name id .attributes context = _ from
    ranAttributes), List.forM_cons, bind_of_ok ranLast]
  rfl

end Stage

end Adl
