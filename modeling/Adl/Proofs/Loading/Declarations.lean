import Adl.Loading.Declarations
import Adl.Proofs.Loading.Editing
import Adl.Proofs.Reference.Resolution

namespace Adl

open Step Context Resolver

/-! The checks of declarations keep what is made. Only that of the type parameters loads
other definitions, for the types that these conform to. -/

variable {strict whole : Prop} {name : String} {generic : Bool} {id : DefinitionId} {context : Context}
  {load twin : String → Loading DefinitionId} {frontEnd : FrontEnd}

/-! ## Repetitions -/

/-- Where nothing is repeated, all keys are different. -/
theorem nodup_of_repeatedBy {α : Type} {key : α → String} {seen : List String} {items : List α}
    (unrepeated : repeatedBy key seen items = []) :
    (∀ item ∈ items, key item ∉ seen) ∧ (items.map key).Nodup := by
  induction items generalizing seen with
  | nil => exact ⟨nofun, .nil⟩
  | cons item rest induction =>
      unfold repeatedBy at unrepeated
      split at unrepeated
      · exact nomatch unrepeated
      · rename_i isNew
        obtain ⟨others, distinct⟩ := induction unrepeated
        refine ⟨List.forall_mem_cons.mpr ⟨by simpa using isNew, fun other member known =>
          others other member (List.mem_cons_of_mem _ known)⟩, List.nodup_cons.mpr ⟨?_, distinct⟩⟩
        intro among
        obtain ⟨other, member, same⟩ := List.mem_map.mp among
        exact others other member (same ▸ List.mem_cons_self)

/-- Each item whose key was seen before is reported. -/
theorem agree_forM_repeatedBy {α : Type} {key : α → String} {items : List α}
    {report : α → Loading Unit}
    (reports : ∀ item context, Agree reporting context (report item) (report item)
      fun _ reached => reached.log.errors ≠ []) :
    Agree reporting context ((repeatedBy key [] items).forM report)
      ((repeatedBy key [] items).forM report)
      fun _ reached => reached.log.errors = [] → (items.map key).Nodup := by
  refine (Agree.forM_all (fun (_ : α) (reached : Context) => reached.log.errors ≠ [])
    (fun _ _ _ _ _ reports => Reports.evolves reports |>.errors_ne_nil) trivial
    fun item _ context _ _ => reports item context).mono ?_
  intro _ reached _ _ recorded silent
  have unrepeated : repeatedBy key [] items = [] :=
    List.eq_nil_iff_forall_not_mem.mpr fun item member => recorded item member silent
  exact (nodup_of_repeatedBy unrepeated).2

/-! ## Type parameters -/

namespace Definition

/-- Every placeholder stands for a type parameter that is declared. -/
def DeclaresPlaceholders (definition : Definition) : Prop :=
  ∀ component ∈ definition.components, ∀ parameter,
    component.typeParameter = some parameter → definition.hasTypeParameter parameter = true

instance (definition : Definition) : Decidable definition.DeclaresPlaceholders :=
  inferInstanceAs (Decidable (∀ component ∈ definition.components,
    ∀ parameter ∈ component.typeParameter, definition.hasTypeParameter parameter = true))

theorem hasTypeParameter_iff {definition : Definition} {parameter : String} :
    definition.hasTypeParameter parameter = true ↔ parameter ∈ definition.typeParameterNames := by
  simp [hasTypeParameter, typeParameter?, typeParameterNames]

theorem Keeps.hasTypeParameter {changed original : Definition} (keeps : changed.Keeps original)
    (parameter : String) :
    changed.hasTypeParameter parameter = original.hasTypeParameter parameter := by
  rw [Bool.eq_iff_iff, hasTypeParameter_iff, hasTypeParameter_iff, keeps.typeParameters]

/-- What is declared of the sub-components is declared of those that they were. -/
theorem DeclaresPlaceholders.keeps {changed original : Definition}
    (declares : changed.DeclaresPlaceholders) (keeps : changed.Keeps original) :
    original.DeclaresPlaceholders := by
  intro component member parameter isPlaceholder
  have outlined : component.outline ∈ changed.outlines :=
    keeps.outlines ▸ List.mem_map.mpr ⟨component, member, rfl⟩
  obtain ⟨other, otherMember, same⟩ := List.mem_map.mp outlined
  have sameParameter : other.typeParameter = component.typeParameter :=
    congrArg (fun outline => outline.2.1) same
  rw [← keeps.hasTypeParameter]
  exact declares other otherMember parameter (sameParameter.trans isPlaceholder)

end Definition

/-- The type that a type parameter conforms to, if to any, was found. -/
def FormalTypeParameter.FindsType (parameter : FormalTypeParameter) : Prop :=
  ∀ reference, parameter.conformsTo = some reference → reference.resolvedId?.isSome = true

namespace TypeParameters

variable {Extra : Context → Prop}

theorem agree_checkConformance (lasts : Lasts frontEnd strict Extra) (loads : Loads frontEnd strict Extra load twin)
    (harmless : frontEnd.registry.IsHarmless)
    (inScope : InScope strict (some id) context)
    (valid : (evolving frontEnd strict none Extra).Valid context) (parameter : FormalTypeParameter) :
    Agree ((evolving frontEnd strict none Extra).drafting fun _ draft => draft.name = parameter.name)
      (context, parameter)
      (checkConformance (Resolver.full frontEnd load) id)
      (checkConformance (Resolver.full frontEnd twin) id)
      fun _ pair => strict → pair.1.log.errors = [] → pair.2.FindsType := by
  refine .read rfl ?_
  split
  · rename_i free
    exact .pure ⟨valid, rfl⟩ fun _ _ _ found => nomatch free.symm.trans found
  · rename_i reference conforms
    split
    · rename_i known
      refine .pure ⟨valid, rfl⟩ fun _ _ other found => ?_
      cases conforms.symm.trans found
      exact known
    · refine .bind (Drafting.agree_onPart
        (Resolver.agree_full lasts loads harmless (some id) inScope valid.1 valid.2
          reference) fun _ _ _ _ _ => rfl) ?_
      rintro found ⟨reached, _⟩ valid _ ⟨form, rfl, -, answer, designates⟩
      cases found with
      | none => exact .pure valid fun isStrict silent => absurd silent (answer isStrict)
      | some type =>
          have isFound : { parameter with conformsTo := some form }.FindsType := by
            rintro _ ⟨⟩
            rw [designates type rfl]
            rfl
          refine .read rfl ?_
          split
          · refine .read rfl ((Drafting.agree_lift (Discipline.lasting_const _
              fun (draft : FormalTypeParameter) => draft.name = parameter.name)
              valid.1 valid.2 ((Loading.agree_recordError _ _ _).reported valid.1.1 valid.1.2
                lasts)).mono ?_)
            rintro _ ⟨later, _⟩ _ _ ⟨rfl, -⟩ - -
            exact isFound
          · exact .pure valid fun _ _ => isFound

theorem names_of_forall₂ {parameters changed : List FormalTypeParameter}
    (related : List.Forall₂ (fun parameter changed => changed.name = parameter.name)
      parameters changed) :
    parameters.map (·.name) = changed.map (·.name) := by
  induction related with
  | nil => rfl
  | cons same _ induction => rw [List.map_cons, List.map_cons, same, induction]

theorem agree_recordRepeated (definition : Definition) :
    Agree reporting context (recordRepeated definition) (recordRepeated definition)
      fun _ reached => reached.log.errors = [] → definition.typeParameterNames.Nodup :=
  agree_forM_repeatedBy fun _ _ => Loading.agree_recordError _ _ _

theorem agree_checkPlaceholder (definition : Definition) (component : Component) :
    Agree reporting context (checkPlaceholder definition component)
      (checkPlaceholder definition component)
      fun _ reached => reached.log.errors = [] → ∀ parameter,
        component.typeParameter = some parameter → definition.hasTypeParameter parameter = true := by
  unfold checkPlaceholder
  split
  · rename_i absent
    exact .pure trivial fun _ _ found => nomatch absent.symm.trans found
  · rename_i parameter isPlaceholder
    split
    · rename_i declared
      refine .pure trivial fun _ other found => ?_
      cases isPlaceholder.symm.trans found
      exact declared
    · exact (Loading.agree_recordError _ _ _).mono fun _ _ _ _ recorded silent =>
        absurd silent recorded

/-- The placeholders are checked one after the other, while the definition stays as it is. -/
theorem agree_checkPlaceholders (lasts : Lasts frontEnd strict Extra)
    (valid : (evolving frontEnd strict none Extra).Valid context) (definition : Definition)
    {components : List Component} :
    Agree ((evolving frontEnd strict none Extra).drafting fun _ other => other = definition)
      (context, definition)
      (components.forM fun component => do checkPlaceholder (← Drafting.draft) component)
      (components.forM fun component => do checkPlaceholder (← Drafting.draft) component)
      fun _ pair => ∀ component ∈ components, pair.1.log.errors = [] → ∀ parameter,
        component.typeParameter = some parameter → definition.hasTypeParameter parameter = true := by
  have kept := Discipline.lasting_const (evolving frontEnd strict none Extra)
    fun (other : Definition) => other = definition
  refine Agree.forM_all (fun (component : Component) (pair : Context × Definition) =>
    pair.1.log.errors = [] → ∀ parameter, component.typeParameter = some parameter →
      definition.hasTypeParameter parameter = true) ?_ ⟨valid, rfl⟩ ?_
  · exact fun _ _ _ _ _ leads holds silent =>
      holds (Evolves.errors_eq_nil (Advances.toEvolves leads) silent)
  · rintro component _ ⟨last, draft⟩ ⟨valid, rfl⟩ _
    exact .read rfl ((Drafting.agree_lift kept valid rfl ((agree_checkPlaceholder draft
      component).reported valid.1 valid.2 lasts)).mono fun _ _ _ _ holds => holds.2)

/-- The check keeps what is made, and reports what is not declared. -/
theorem agree_check (harmless : frontEnd.registry.IsHarmless)
    (attends : Attends frontEnd strict name id Extra) (loads : Loads frontEnd strict Extra load twin)
    (extra : Extra context) (valid : (making frontEnd strict whole name generic id).Valid context) :
    Agree (making frontEnd strict whole name generic id) context (check (Resolver.full frontEnd load) id)
      (check (Resolver.full frontEnd twin) id)
      fun _ reached => (context.definition id).Conforms (reached.definition id) ∧
        (reached.log.errors = [] → (context.definition id).DeclaresPlaceholders ∧
          (context.definition id).typeParameterNames.Nodup ∧
          (strict → ∀ parameter ∈ (reached.definition id).typeParameters, parameter.FindsType)) := by
  have lasts := attends.lasts
  refine .read rfl ?_
  split
  · rename_i declares
    have named := valid.2.2.names.named
      (fun definition => definition.isGeneric || definition.components.any (·.typeParameter.isSome))
      (fun _ => rfl) declares
    refine (Loading.agree_revise_conforming attends extra valid named (?_ : Agree _ _ _ _
      fun _ (pair : Context × Definition) =>
        pair.1.log.errors = [] → (context.definition id).DeclaresPlaceholders ∧
          (context.definition id).typeParameterNames.Nodup ∧
          (strict → ∀ parameter ∈ pair.2.typeParameters, parameter.FindsType))).mono ?_
    · have lasting := Discipline.lasting_const (evolving frontEnd strict none Extra)
        fun (draft : Definition) => (context.definition id).Conforms draft
      refine Drafting.agree_lift_bind lasting ⟨valid.1, extra⟩ (.refl _)
        ((agree_recordRepeated _).reported valid.1 extra lasts) ?_
      have found : ∀ (_ : FormalTypeParameter) (_ : Unit), (evolving frontEnd strict none Extra).Lasting
          fun (reached : Context) (parameter : FormalTypeParameter) =>
            strict → reached.log.errors = [] → parameter.FindsType :=
        fun _ _ _ _ _ _ _ leads finds isStrict silent =>
          finds isStrict (Evolves.errors_eq_nil (Advances.toEvolves leads) silent)
      intro _ reached validReached _ _ distinct
      refine .bind (Drafting.agree_onPart
        (Drafting.agree_each (fun parameter => Discipline.lasting_const _
            fun (draft : FormalTypeParameter) => draft.name = parameter.name)
          found validReached (fun _ _ => rfl)
          fun _ _ parameter valid _ _ => agree_checkConformance lasts loads harmless
            (fun _ => ⟨id, (attends.making valid.2).within, rfl⟩) valid parameter)
        fun _ parameters _ _ named => ?_) ?_
      · exact ⟨parameters, (names_of_forall₂ named).symm, rfl⟩
      · rintro _ ⟨later, draft⟩ validLater leads ⟨parameters, rfl, -, visited⟩
        refine (Drafting.agree_under ((agree_checkPlaceholders lasts validLater.1
            { context.definition id with typeParameters := parameters }).mono
              fun _ _ valid _ all => And.intro valid.2 all)
          (fun _ valid _ => valid) (fun _ _ leads => leads) (fun _ fails => fails)
          fun _ _ _ _ same => same ▸ validLater.2).mono ?_
        rintro _ ⟨last, _⟩ _ leadsLast ⟨rfl, all⟩ silent
        have silentLater := Evolves.errors_eq_nil (Advances.toEvolves leadsLast) silent
        refine ⟨fun component member parameter isPlaceholder => ?_,
          distinct (Evolves.errors_eq_nil (Advances.toEvolves leads) silentLater), ?_⟩
        · rw [← validLater.2.keeps.hasTypeParameter]
          exact all component member silent parameter isPlaceholder
        · intro isStrict parameter member
          obtain ⟨_, -, finds⟩ := exists_left_of_forall₂ visited.items parameter member
          exact finds isStrict silentLater
    · rintro _ _ _ _ ⟨conforms, before, draft, rfl, stored, holds⟩
      exact ⟨conforms, stored.symm ▸ holds⟩
  · rename_i absent
    have notGeneric := (not_or.mp (Bool.or_eq_true .. ▸ absent)).1
    have plain : (context.definition id).typeParameters = [] := by
      simpa only [Definition.isGeneric, Bool.not_eq_true', Bool.not_eq_false,
        List.isEmpty_iff] using notGeneric
    refine .pure valid ⟨.refl _, fun _ => ⟨fun component member parameter isPlaceholder => ?_, ?_, ?_⟩⟩
    · have present : (context.definition id).components.any (·.typeParameter.isSome) = true :=
        List.any_eq_true.mpr ⟨component, member, isPlaceholder ▸ rfl⟩
      simp [present] at absent
    · simp [Definition.typeParameterNames, plain]
    · intro _ parameter member
      rw [plain] at member
      exact absurd member List.not_mem_nil

end TypeParameters

/-! ## Interfaces, parameters and attributes -/

theorem areErrors_interfaceProblems (seen : List String) (interfaces : List Interface) :
    AreErrors (interfaceProblems seen interfaces) := by
  induction interfaces generalizing seen with
  | nil => exact fun _ member => nomatch member
  | cons interface rest induction =>
      unfold interfaceProblems
      intro diagnostic member
      rcases List.mem_append.mp member with member | member
      · rcases List.mem_append.mp member with member | member
        · split at member
          · exact areErrors_singleton rfl diagnostic member
          · exact nomatch member
        · split at member
          · exact areErrors_singleton rfl diagnostic member
          · exact nomatch member
      · exact induction _ diagnostic member

/-- Without errors nothing is wrong with the interfaces. -/
theorem agree_checkInterfaces (making : Making name id context) :
    Agree (editing name id) context (checkInterfaces id) (checkInterfaces id)
      fun _ reached => Reports context reached ∧
        (reached.log.errors = [] →
          interfaceProblems [] (context.definition id).interfaces = []) :=
  .read rfl (Loading.agree_editing making ((Loading.agree_recordAll _).mono
    fun _ _ _ reports recorded => ⟨reports, fun silent => List.eq_nil_iff_forall_not_mem.mpr
      fun diagnostic member => recorded diagnostic member
        (areErrors_interfaceProblems _ _ diagnostic member) silent⟩))

theorem agree_checkParameters (making : Making name id context) :
    Agree (editing name id) context (checkParameters id) (checkParameters id)
      fun _ reached => Reports context reached :=
  .read rfl (Loading.agree_editing making (Agree.mono (.forM (fun _ => True) trivial trivial
    fun _ _ _ _ _ => (Loading.agree_recordError _ _ _).forget) fun _ _ _ reports _ => reports))

theorem ParameterType.isLiteral_default (type : ParameterType) : type.default.isLiteral = true := by
  cases type <;> rfl

namespace Attribute

/-- The type that the values of an attribute have. -/
def type (declared : Attribute) : ParameterType :=
  .ofAttributeType declared.typeName

/-- An attribute has a value: a literal of its type, or a parameter of its owner that was given
its type. -/
def IsTyped (owner : Definition) (context : Context) (declared : Attribute) : Prop :=
  ∃ value, declared.value = some value ∧
    match value with
    | .reference parameter => owner.hasParameter parameter = true ∧
        context.inferredType? owner.name parameter = some declared.type
    | literal => declared.type.accepts literal = true

/-- The value of an attribute refers to a parameter of its owner, if to any. -/
def IsOwned (owner : Definition) (declared : Attribute) : Prop :=
  ∀ parameter, declared.value = some (.reference parameter) → owner.hasParameter parameter = true

namespace IsTyped

variable {owner : Definition} {before after : Context} {declared : Attribute}

theorem isOwned (typed : declared.IsTyped owner before) : declared.IsOwned owner := by
  intro parameter isReference
  obtain ⟨value, isValue, holds⟩ := typed
  cases isValue.symm.trans isReference
  exact holds.1

theorem lasts (types : before.KeepsTypes after) (typed : declared.IsTyped owner before) :
    declared.IsTyped owner after := by
  obtain ⟨value, isValue, holds⟩ := typed
  refine ⟨value, isValue, ?_⟩
  cases value with
  | reference parameter => exact ⟨holds.1, types _ _ _ holds.2⟩
  | string | number | null => exact holds

/-- A literal of the type of the attribute. -/
theorem of_literal {value : Value} (isValue : declared.value = some value)
    (accepted : declared.type.accepts value = true) : declared.IsTyped owner before := by
  refine ⟨value, isValue, ?_⟩
  cases value with
  | reference => exact nomatch accepted
  | string | number | null => exact accepted

end IsTyped

theorem agree_checkNumber (declared : Attribute) (type : ParameterType) (value : Int64) :
    Agree reporting context (checkNumber declared type value) (checkNumber declared type value)
      fun _ reached => reached.log.errors = [] → type.accepts (.number value) = true := by
  unfold checkNumber
  split
  · exact (Loading.agree_recordError _ _ _).mono fun _ _ _ _ recorded silent =>
      absurd silent recorded
  · rename_i notString
    have accepted : type.accepts (.number value) = true := by
      cases type with
      | string => exact absurd rfl notString
      | integer => rfl
    split
    · exact (Loading.agree_warn _ _ _).mono fun _ _ _ _ _ _ => accepted
    · exact .pure trivial fun _ => accepted

theorem agree_checkText (declared : Attribute) (type : ParameterType) (value : Value) :
    Agree reporting context (checkText declared type value) (checkText declared type value)
      fun _ reached => reached.log.errors = [] → type = .string := by
  unfold checkText
  split
  · exact (Loading.agree_recordError _ _ _).mono fun _ _ _ _ recorded silent =>
      absurd silent recorded
  · rename_i notInteger
    refine .pure trivial fun _ => ?_
    cases type with
    | string => rfl
    | integer => exact absurd rfl notInteger

theorem agree_checkReference (owner : Definition) (declared : Attribute) (type : ParameterType)
    (parameter : String) :
    Agree reporting context (checkReference owner declared type parameter)
      (checkReference owner declared type parameter)
      fun _ reached => reached.log.errors = [] → owner.hasParameter parameter = true ∧
        reached.inferredType? owner.name parameter = some type := by
  unfold checkReference
  split
  · exact (Loading.agree_recordError _ _ _).mono fun _ _ _ _ recorded silent =>
      absurd silent recorded
  · rename_i known
    have known : owner.hasParameter parameter = true := by simpa using known
    refine .bind (Loading.agree_infer _ _ _) ?_
    rintro inferred reached _ _ ⟨-, recorded⟩
    cases inferred with
    | none => exact .pure trivial fun _ => ⟨known, recorded⟩
    | some inferred =>
        dsimp only
        split
        · exact (Loading.agree_recordError _ _ _).mono fun _ _ _ _ present silent =>
            absurd silent present
        · rename_i same
          have same : inferred = type := by simpa using same
          exact .pure trivial fun _ => ⟨known, same ▸ recorded⟩

theorem agree_settle (owner : Definition) (declared : Attribute) :
    Agree (reporting.drafting fun _ => Settles declared) (context, declared) (settle owner)
      (settle owner) fun _ pair => pair.1.log.errors = [] → pair.2.IsTyped owner pair.1 := by
  have lifted : ∀ {step : Loading Unit}, Agree reporting context step step
        (fun _ reached => reached.log.errors = [] → declared.IsTyped owner reached) →
      Agree (reporting.drafting fun _ => Settles declared) (context, declared)
        (liftM step : Revising Attribute Unit) (liftM step)
        fun _ pair => pair.1.log.errors = [] → pair.2.IsTyped owner pair.1 := by
    intro step agree
    refine (Drafting.agree_lift (Discipline.lasting_const reporting (Settles declared)) trivial
      (.inl rfl) agree).mono ?_
    rintro _ ⟨reached, _⟩ _ _ ⟨rfl, holds⟩
    exact holds
  refine .read rfl ?_
  dsimp only
  split
  · rename_i absent
    exact Drafting.agree_modifyDraft trivial
      (.inr ⟨absent, _, ParameterType.isLiteral_default _, rfl⟩)
      fun _ => .of_literal rfl (ParameterType.accepts_default _)
  · rename_i value isNumber
    exact lifted ((agree_checkNumber _ _ _).mono fun _ _ _ _ accepted silent =>
      .of_literal isNumber (accepted silent))
  · rename_i parameter isReference
    exact lifted ((agree_checkReference _ _ _ _).mono fun _ _ _ _ checked silent =>
      ⟨_, isReference, checked silent⟩)
  · rename_i value notNumber notReference isText
    refine lifted ((agree_checkText _ _ _).mono fun _ _ _ _ isString silent =>
      .of_literal isText ?_)
    rw [type, isString silent]
    cases value with
    | number => exact absurd rfl (notNumber _)
    | reference => exact absurd rfl (notReference _)
    | string | null => rfl

end Attribute

/-- Attributes come to have values. Without errors these are of their types. -/
theorem agree_settleAttributes (making : Making name id context) :
    Agree (editing name id) context (settleAttributes id) (settleAttributes id)
      fun _ reached =>
        (∃ attributes, reached.definition id = { context.definition id with attributes }) ∧
        (reached.log.errors = [] → ∀ declared ∈ (reached.definition id).attributes,
          declared.IsTyped (reached.definition id) reached) := by
  refine .read rfl ?_
  split
  · rename_i declares
    have named := making.names.named (fun definition => !definition.attributes.isEmpty)
      (fun _ => rfl) declares
    refine (Loading.agree_revise_edited _ making named (?_ : Agree _ _ _ _
      fun _ (pair : Context × Definition) =>
        (∃ attributes, pair.2 = { context.definition id with attributes }) ∧
        (pair.1.log.errors = [] → ∀ declared ∈ pair.2.attributes,
          declared.IsTyped pair.2 pair.1))).mono ?_
    · have lasting : ∀ (declared : Attribute) (_ : Unit), reporting.Lasting
          fun (reached : Context) (settled : Attribute) => reached.log.errors = [] →
            settled.IsTyped (context.definition id) reached :=
        fun _ _ _ _ _ _ _ reports typed silent =>
          (typed (reports.evolves.errors_eq_nil silent)).lasts reports.types
      refine .bind (Drafting.agree_onPart
        (Drafting.agree_each (fun declared => Discipline.lasting_const reporting declared.Settles)
          lasting trivial (fun _ _ => .inl rfl) fun _ _ declared _ _ _ =>
            Attribute.agree_settle (context.definition id) declared)
        fun _ _ _ _ settled => .of_edit (.settled _ settled)) ?_
      rintro _ ⟨reached, draft⟩ valid _ ⟨attributes, rfl, -, visited⟩
      refine .pure valid ⟨⟨attributes, rfl⟩, fun silent declared member => ?_⟩
      obtain ⟨_, -, typed⟩ := exists_left_of_forall₂ visited.items declared member
      exact typed silent
    · rintro _ reached _ _ ⟨before, changed, -, holds, rfl, stored⟩
      rw [stored]
      exact holds
  · rename_i absent
    have empty : (context.definition id).attributes = [] := by simpa using absent
    refine .pure making ⟨⟨_, rfl⟩, fun _ declared member => ?_⟩
    rw [empty] at member
    exact nomatch member

end Adl
