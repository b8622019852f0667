import Adl.Proofs.Loading.Closing
import Adl.Proofs.Template.Mentions

namespace Adl

open Step Context Resolver

/-! Instances of generic definitions leave nothing open when everything is bound. A
placeholder is filled with what is bound, and a reference that uses type parameters is
resolved again with what is bound in their place. -/

variable {frontEnd : FrontEnd} {context : Context}

namespace FrontEnd

/-- What a reference designates for the definition that holds it. -/
def Designates (frontEnd : FrontEnd) (context : Context) (holder : DefinitionId)
    (reference : Reference) (target : DefinitionId) : Prop :=
  (frontEnd.resolve (some holder) (context, reference)).1 = .ok (some target)

/-- A reference designates what is remembered for it. -/
theorem designates_of_remembered {holder target : DefinitionId} {reference : Reference}
    (found : context.references.find?
      ((context.definition holder).name ++ "|" ++ reference.text) = some target) :
    frontEnd.Designates context holder reference target := by
  obtain ⟨inner, equal⟩ := exists_full_eq frontEnd frontEnd.load (some holder) context reference
  have remembered : remembered? (some holder) context reference = some target := found
  unfold Designates resolve
  rw [equal, withCache_apply, remembered]

end FrontEnd

namespace InstanceRequest

variable {request : InstanceRequest}

/-- Every type parameter of the generic definition is bound to a loaded definition that can
be instantiated. -/
structure BindsAll (request : InstanceRequest) (context : Context) : Prop where
  closed : request.IsClosed context
  usable : ∀ id, TypeBinding.definition id ∈ request.bindings.values →
    (context.definition id).isType = false ∧ (context.definition id).isAbstract = false
  all : ∀ parameter, (context.definition request.generic).hasTypeParameter parameter = true →
    request.bindings.contains parameter = true

namespace BindsAll

theorem loaded_of_find? (binds : request.BindsAll context) {parameter : String}
    {binding : TypeBinding} (found : request.bindings.find? parameter = some binding) :
    ∃ id, binding = .definition id ∧ context.Loaded id :=
  binds.closed.bound binding (Table.mem_values_of_find? found)

theorem exists_bound (binds : request.BindsAll context) {parameter : String}
    (declared : (context.definition request.generic).hasTypeParameter parameter = true) :
    ∃ id, request.bindings.find? parameter = some (.definition id) := by
  obtain ⟨binding, found⟩ := Option.isSome_iff_exists.mp (binds.all parameter declared)
  obtain ⟨id, rfl, -⟩ := binds.loaded_of_find? found
  exact ⟨id, found⟩

theorem areBindable {strict : Prop} {scope : Option DefinitionId}
    (binds : request.BindsAll context) :
    request.bindings.AreBindable strict scope context := by
  intro binding member
  obtain ⟨id, rfl, loaded⟩ := binds.closed.bound binding member
  exact fun _ => ⟨loaded, binds.usable id member⟩

/-- An instance with everything bound declares no type parameters. -/
theorem typeParameters_bare (binds : request.BindsAll context) (name : String) :
    (request.bare context name).typeParameters = [] := by
  change openTypeParameters request.bindings _ = []
  unfold openTypeParameters
  rw [List.filterMap_eq_nil_iff]
  intro parameter member
  have declared : (context.definition request.generic).hasTypeParameter parameter.name = true :=
    Definition.hasTypeParameter_iff.mpr (List.mem_map_of_mem member)
  obtain ⟨id, bound⟩ := binds.exists_bound declared
  rw [bound]

end BindsAll

/-- What an instance holds for a sub-component of the generic definition, where its reference
is read in the given way. -/
structure Fills (frontEnd : FrontEnd) (context : Context) (request : InstanceRequest)
    (id : DefinitionId) (read : Reference → Reference) (component filled : Component) :
    Prop where
  name : filled.name = component.name
  noPlaceholder : filled.typeParameter = none
  placeholder : ∀ parameter, component.typeParameter = some parameter →
    ∃ bound, request.bindings.find? parameter = some (.definition bound) ∧
      filled.resolvedId? = some bound
  replaced : component.typeParameter = none → ∀ reference,
    component.definition = some reference →
    (read reference).usesTypes request.bindings = true →
    ∃ target, filled.resolvedId? = some target ∧
      frontEnd.Designates context id ((read reference).instantiate context request.bindings)
        target ∧
      (context.SeparatesKeys →
        SpellsName ((read reference).instantiate context request.bindings).text.toList →
        context.cache.find? ((read reference).instantiate context request.bindings).text =
          some target) ∧
      (context.IsClear → (context.definition target).isGeneric = false)
  kept : component.typeParameter = none →
    (∀ reference, component.definition = some reference →
      (read reference).usesTypes request.bindings = false) →
    filled.resolvedId? = component.resolvedId?

/-- What was made and registered is finished in its slot, as an instance of what was asked for. -/
structure IsMade (request : InstanceRequest) (context : Context) (id : DefinitionId)
    (reached : Context) : Prop where
  sound : reached.Sound True
  evolves : Evolves none context reached
  loaded : reached.cache.find? (request.instanceName context) = some id
  declares : reached.log.errors = [] → (reached.definition id).DeclaresPlaceholders
  completed : SubComponents.Completed True
    (request.bare context (request.instanceName context)) id reached

/-- What is made can be registered. -/
theorem sound_register_of_build (harmless : frontEnd.registry.IsHarmless) (sound : context.Sound True)
    (binds : request.BindsAll context) {name : String} {made : Definition} {built : Context}
    (builds : request.build frontEnd.registry layers name context = (.ok made, built)) :
    Reports context built ∧ (request.bare context name).Edits made ∧
      (built.register name made).2.Sound True := by
  obtain ⟨-, reports, edits⟩ := (agree_build harmless layers).of_ok builds
  have bindable : request.bindings.AreBindable True none context := binds.areBindable
  have keeps := edits.keeps
  refine ⟨reports, edits, (sound.ofReports reports).register keeps.name fun isStrict => ?_⟩
  rw [keeps.links]
  exact (linked_bare sound isStrict bindable).lasts sound reports.evolves nofun

/-- An instance that was not known is made, and then finished. -/
theorem isMade_of_load (harmless : frontEnd.registry.IsHarmless)
    (plain : frontEnd.ParsesPlainly) {load : String → Loading DefinitionId}
    (isLoad : load = frontEnd.load ∨ ∃ levels, load = frontEnd.loadWithin levels)
    (sound : context.Sound True) (binds : request.BindsAll context)
    (unknown : context.isKnown (request.instanceName context) = false)
    {id : DefinitionId} {reached : Context}
    (ends : request.load frontEnd.registry load context = (.ok id, reached)) :
    request.IsMade context id reached := by
  have lasts : Lasts frontEnd True fun _ => True := fun _ _ _ _ => trivial
  obtain ⟨twin, loads⟩ : ∃ twin, Loads frontEnd True (fun _ => True) load twin := by
    rcases isLoad with rfl | ⟨levels, rfl⟩
    · exact ⟨_, FrontEnd.loads_load harmless (fun _ => plain) .aborted lasts⟩
    · exact ⟨_, FrontEnd.loads_loadGuarded harmless (fun _ => plain) .aborted levels lasts⟩
  have bindable : request.bindings.AreBindable True none context := binds.areBindable
  obtain ⟨⟨soundReached, -⟩, leads, loaded⟩ :=
    (agree_load harmless lasts loads sound trivial bindable).of_ok ends
  obtain ⟨_, _, isContext, ends⟩ := ok_of_bind ends
  cases isContext
  dsimp only at ends
  rw [unknown] at ends
  obtain ⟨made, built, builds, ends⟩ := ok_of_bind ends
  obtain ⟨slot, registered, registers, ends⟩ := ok_of_bind ends
  cases registers
  obtain ⟨reports, edits, soundRegistered⟩ := sound_register_of_build harmless sound binds builds
  have keeps := edits.keeps
  have absent : context.cache.find? (request.instanceName context) = none := by
    simp only [Context.isKnown, Bool.or_eq_false_iff] at unknown
    exact Table.find?_eq_none_of_not_contains unknown.1.1
  have stored := definition_push_size built made
  obtain ⟨levels, ends⟩ : ∃ levels, frontEnd.loadWithin levels (request.instanceName context)
      (built.register (request.instanceName context) made).2 = (.ok id, reached) := by
    rcases isLoad with rfl | ⟨levels, rfl⟩
    · exact ⟨_, (Step.bind_of_ok rfl).symm.trans ends⟩
    · exact ⟨levels, ends⟩
  obtain ⟨rfl, finished⟩ := FrontEnd.finished_of_loadWithin harmless (fun _ => plain)
    soundRegistered ((Table.find?_insert ..).trans (if_pos rfl))
    (show built.cache.find? _ = none by rw [reports.cache, absent]) ends
  change Context.Finished True (({ built with arena := built.arena.push made } :
    Context).definition _) _ _ at finished
  rw [stored] at finished
  have merged : made.decorations.extendsMerged = true := by
    obtain ⟨name, found⟩ := binds.closed.generic
    exact keeps.extendsMerged.trans (sound.merged name request.generic found)
  have completed := (finished.completed merged).ofKeeps keeps
  refine ⟨soundReached, leads.toEvolves, loaded, fun silent => ?_, completed⟩
  have declares := (finished.declares silent).keeps keeps
  intro component member parameter isPlaceholder
  obtain ⟨original, among, follows⟩ := exists_left_of_forall₂ completed.components component member
  rw [Definition.hasTypeParameter_iff, completed.typeParameters, ← Definition.hasTypeParameter_iff]
  exact declares original among parameter (follows.typeParameter.symm.trans isPlaceholder)

/-- What a sub-component of an instance has become is told by what the resolution of the
sub-components made of it. -/
theorem fills_of_follows {component filled : Component} {reached : Context} {id : DefinitionId}
    {name : String} (binds : request.BindsAll context)
    (named : (reached.definition id).name = name)
    (same : ∀ parameter bound, request.bindings.find? parameter = some (.definition bound) →
      (reached.definition bound).name = (context.definition bound).name)
    (closed : filled.typeParameter = none)
    (resolved : component.definition.isSome = true → component.resolved.isSome = true)
    (decorated : filled.definition.isSome = true → ∃ target, filled.resolvedId? = some target)
    (notGeneric : (reached.definition id).isGeneric = false)
    (follows : SubComponents.Follows True id name
      (component.instantiate context request.bindings) filled reached) :
    request.Fills frontEnd reached id (fun reference => reference) component filled := by
  cases isPlaceholder : component.typeParameter with
  | some parameter =>
      have noReference : ∀ {motive : Prop}, component.typeParameter = none → motive :=
        fun none => by cases none.symm.trans isPlaceholder
      cases bound : request.bindings.find? parameter with
      | none =>
          rw [Component.instantiate_of_unbound isPlaceholder bound] at follows
          cases isPlaceholder.symm.trans (follows.typeParameter.symm.trans closed)
      | some binding =>
          obtain ⟨target, rfl, -⟩ := binds.loaded_of_find? bound
          rw [Component.instantiate_of_bound isPlaceholder bound] at follows
          refine ⟨follows.name, closed, fun other isOther => ?_, noReference, noReference⟩
          cases isPlaceholder.symm.trans isOther
          have kept := follows.kept trivial fun _ => rfl
          exact ⟨target, bound, by rw [Component.resolvedId?, kept]; rfl⟩
  | none =>
      refine ⟨follows.name.trans Component.name_instantiate, closed,
        fun _ some => (by cases isPlaceholder.symm.trans some),
        fun _ reference isDefinition uses => ?_, fun _ keeps => ?_⟩
      · rw [Component.instantiate_of_uses isPlaceholder isDefinition uses] at follows
        obtain ⟨target, isTarget⟩ := decorated follows.named
        obtain ⟨fitting, found⟩ := follows.found rfl _ rfl target isTarget
        have spelled := fitting.spelled trivial
        rw [Reference.text_clearResolution, Reference.text_clearResolution] at found spelled
        rw [Reference.instantiate_congr same]
        refine ⟨target, isTarget, FrontEnd.designates_of_remembered (named ▸ found),
          spelled, fun clear => ?_⟩
        by_contra generic
        obtain ⟨_, -, isScope, scopeGeneric⟩ :=
          fitting.generic trivial clear (Bool.not_eq_false _ ▸ generic)
        cases isScope
        cases notGeneric.symm.trans scopeGeneric
      · rw [Component.instantiate_of_not_uses isPlaceholder keeps] at follows
        rw [Component.resolvedId?, follows.kept trivial resolved, Component.resolvedId?]

/-- Where nothing is hidden, a reference reads as it is written. -/
theorem Fills.formal {holder : DefinitionId} {scope : Definition} {component filled : Component}
    (fills : request.Fills frontEnd context holder (fun reference => reference) component filled)
    (shown : ∀ reference, component.definition = some reference →
      reference.hidesParameter scope = false) :
    request.Fills frontEnd context holder (Reference.formal scope) component filled where
  name := fills.name
  noPlaceholder := fills.noPlaceholder
  placeholder := fills.placeholder
  replaced noPlaceholder reference isDefinition uses := by
    rw [Reference.formal_eq_of_not_hides reference (shown reference isDefinition)] at uses ⊢
    exact fills.replaced noPlaceholder reference isDefinition uses
  kept noPlaceholder unused := by
    refine fills.kept noPlaceholder fun reference isDefinition => ?_
    have same := Reference.formal_eq_of_not_hides reference (shown reference isDefinition)
    exact (congrArg (Reference.usesTypes _) same).symm.trans (unused reference isDefinition)

/-- An instance that was made without errors holds what fills the sub-components of the generic
definition. -/
theorem IsMade.fills (frontEnd : FrontEnd) {id : DefinitionId} {reached : Context}
    (made : request.IsMade context id reached) (sound : context.Sound True)
    (binds : request.BindsAll context) (silent : reached.log.errors = []) :
    (reached.definition id).typeParameters = [] ∧
      List.Forall₂ (request.Fills frontEnd reached id fun reference => reference)
        (context.definition request.generic).components (reached.definition id).components := by
  have completed := made.completed
  have closed : (reached.definition id).typeParameters = [] := by
    have names := completed.typeParameters
    rw [Definition.typeParameterNames, Definition.typeParameterNames,
      binds.typeParameters_bare] at names
    exact List.map_eq_nil_iff.mp names
  have resolvedGeneric := sound.isFullyResolved (made.evolves.errors_eq_nil silent)
  have resolvedInstance := made.sound.isFullyResolved silent
  refine ⟨closed, ?_⟩
  have followed := completed.components
  have components : (request.bare context (request.instanceName context)).components =
      (context.definition request.generic).components.map
        (·.instantiate context request.bindings) := rfl
  rw [components, List.forall₂_map_left_iff] at followed
  obtain ⟨genericName, foundGeneric⟩ := binds.closed.generic
  have named := (made.sound.loaded_names _ id made.loaded).eq_of_silent silent
  have same : ∀ parameter bound, request.bindings.find? parameter = some (.definition bound) →
      (reached.definition bound).name = (context.definition bound).name := by
    intro parameter bound found
    obtain ⟨_, equal, loaded⟩ := binds.loaded_of_find? found
    cases equal
    rw [sound.definition_of_loaded made.evolves (by simp) loaded]
  refine List.forall₂_iff_zip.mpr ⟨followed.length_eq, fun {component filled} paired => ?_⟩
  obtain ⟨memberGeneric, member⟩ := List.of_mem_zip paired
  refine fills_of_follows binds named same ?_ (fun isDefinition => ?_) (fun isDefinition => ?_)
    (by simp [Definition.isGeneric, closed]) (List.forall₂_zip followed paired)
  · cases isPlaceholder : filled.typeParameter with
    | none => rfl
    | some parameter =>
        have declared := made.declares silent filled member parameter isPlaceholder
        simp [Definition.hasTypeParameter, Definition.typeParameter?, closed] at declared
  · obtain ⟨resolved, -, decorated, -⟩ :=
      resolvedGeneric genericName request.generic foundGeneric component memberGeneric isDefinition
    rw [decorated]
    rfl
  · obtain ⟨resolved, target, decorated, isTarget, -⟩ :=
      resolvedInstance _ id made.loaded filled member isDefinition
    exact ⟨target, by rw [Component.resolvedId?, decorated]; exact isTarget⟩

/-- What was made stays as it was made. -/
theorem IsMade.lasts {id : DefinitionId} {reached later : Context}
    (made : request.IsMade context id reached) (sound : later.Sound True)
    (evolves : Evolves none reached later) : request.IsMade context id later := by
  have same : later.definition id = reached.definition id :=
    made.sound.definition_of_loaded evolves nofun ⟨_, made.loaded⟩
  refine ⟨sound, made.evolves.trans evolves, evolves.find?_cache made.loaded, fun silent => ?_, ?_⟩
  · rw [same]
    exact made.declares (evolves.errors_eq_nil silent)
  · exact made.completed.keeps made.sound evolves.weaken (same ▸ .refl _)

/-- The instance leaves nothing open, and holds what fills the sub-components of the generic
definition. Where these hide no type parameters, that is also so of the references read with each
type parameter that they name. -/
structure Closes (frontEnd : FrontEnd) (context : Context) (request : InstanceRequest)
    (generic : Definition) (id : DefinitionId) : Prop where
  typeParameters : (context.definition id).typeParameters = []
  fills : List.Forall₂ (fun component filled =>
    request.Fills frontEnd context id (fun reference => reference) component filled ∧
      ((∀ reference, component.definition = some reference →
          reference.hidesParameter generic = false) →
        request.Fills frontEnd context id (Reference.formal generic) component filled))
    generic.components (context.definition id).components

end InstanceRequest

/-- Names with a full stop, where those of generic definitions have only one and do not end as a
copy or an instance of nothing does. -/
def Context.NamesShallow (context : Context) : Prop :=
  (∀ id < context.arena.size, ∀ other < context.arena.size,
    (context.definition id).name = (context.definition other).name →
    (context.definition id).isGeneric = (context.definition other).isGeneric) ∧
  ∀ id ∈ context.cache.values, '.' ∈ (context.definition id).name.toList ∧
    ((context.definition id).isGeneric = true →
      (context.definition id).name.toList.count '.' = 1 ∧
        '(' ∉ (context.definition id).name.toList ∧
        ¬['<', '>'] <:+ (context.definition id).name.toList)

instance (context : Context) : Decidable context.NamesShallow :=
  inferInstanceAs (Decidable (_ ∧ _))

/-- Such names tell generic definitions from the others. -/
theorem Context.NamesShallow.isClear {context : Context} (shallow : context.NamesShallow)
    (separates : context.SeparatesKeys) : context.IsClear := by
  have stored : ∀ {id}, context.Loaded id → id ∈ context.cache.values :=
    fun ⟨_, found⟩ => Table.mem_values_of_find? found
  obtain ⟨alike, shallow⟩ := shallow
  refine ⟨separates.silent, separates.separated, alike, ?_, ?_⟩
  · intro id loaded generic request closed named
    obtain ⟨one, -, notEmpty⟩ := (shallow id (stored loaded)).2 generic
    rw [← named, InstanceRequest.instanceName] at one notEmpty
    simp only [String.toList_append] at one notEmpty
    cases values : request.bindings.values with
    | nil =>
        refine notEmpty ⟨(context.definition request.generic).name.toList, ?_⟩
        simp [values]
    | cons binding rest =>
        obtain ⟨bound, rfl, isLoaded⟩ := closed.bound binding (values ▸ List.mem_cons_self)
        have first := List.count_pos_iff.mpr (shallow _ (stored closed.generic)).1
        have second := List.count_pos_iff.mpr (shallow bound (stored isLoaded)).1
        have separator : (", " : String).toList = [',', ' '] := rfl
        simp only [values, List.map_cons, String.toList_intercalate, separator, intercalate_eq,
          List.count_append, TypeBinding.name] at one
        omega
  · intro id loaded generic target isLoaded _ bindings named
    refine ((shallow id (stored loaded)).2 generic).2.1 ?_
    rw [← named, Definition.substitutedName]
    simp
namespace FrontEnd

/-- An instance that is made with all type parameters bound to definitions leaves nothing open,
from then on in every state without errors. A placeholder holds what is bound to its parameter. A
reference that uses type parameters designates, for the instance, what it designates with the bound
definitions in their place; if it spells a name then, that is the definition of this name, and as
far as names tell generic definitions from the others it is none of them. -/
theorem instances_replace_type_parameters (frontEnd : FrontEnd)
    (predefined : frontEnd.registry = .predefined) (plain : frontEnd.ParsesPlainly) :
    (∀ options definitions names,
      (∀ definition ∈ definitions, ∀ component ∈ definition.components,
        component.resolved = none) →
      (frontEnd.afterLoads names (.ofDefinitions options definitions)).Sound True) ∧
    ∀ context load (request : InstanceRequest) id reached, context.Sound True →
      (load = frontEnd.load ∨ ∃ levels, load = frontEnd.loadWithin levels) →
      request.BindsAll context → context.isKnown (request.instanceName context) = false →
      request.load frontEnd.registry load context = (.ok id, reached) →
      reached.Sound True ∧ reached.cache.find? (request.instanceName context) = some id ∧
        ∀ later, later.Sound True → Evolves none reached later → later.log.errors = [] →
          request.Closes frontEnd later (context.definition request.generic) id := by
  have harmless : frontEnd.registry.IsHarmless :=
    predefined ▸ AnnotationRegistry.isHarmless_predefined
  refine ⟨fun options definitions names undecorated => sound_afterLoads harmless plain names
    (sound_ofDefinitions options definitions fun _ => undecorated), ?_⟩
  intro context load request id reached sound isLoad binds unknown ends
  have made := InstanceRequest.isMade_of_load harmless plain isLoad sound binds unknown ends
  refine ⟨made.sound, made.loaded, fun later soundLater evolves silent => ?_⟩
  obtain ⟨typeParameters, fills⟩ :=
    (made.lasts soundLater evolves).fills frontEnd sound binds silent
  exact ⟨typeParameters, fills.imp fun _ _ fills => ⟨fills, fun shown => fills.formal shown⟩⟩

/-- A primitive, a generic composite that holds what it is given, and one that also holds an
instance of this. -/
def templates : List Definition :=
  [ { Definition.ofKind "a.Q" .primitive with sources := [.ofPath "q.c"] },
    { Definition.ofKind "a.H" .composite with
      typeParameters := [⟨"T", none, .generated⟩]
      components := [⟨"p", none, some "T", .generated, .none, none, false⟩] },
    { Definition.ofKind "a.G" .composite with
      typeParameters := [⟨"T", none, .generated⟩]
      components :=
        [⟨"p", none, some "T", .generated, .none, none, false⟩,
          ⟨"c", some ⟨"a.H", [], [⟨none, .parameter "T", .generated⟩], .generated, none⟩, none,
            .generated, .none, none, false⟩] } ]

def templatesLoaded : Context :=
  registeredOnly.afterLoads ["a.G", "a.Q"] (.ofDefinitions .default templates)

/-- The second generic composite with the primitive for its type parameter. -/
def filledTemplate : InstanceRequest :=
  ⟨2, ⟨[("T", .definition 0)]⟩⟩

theorem bindsAll_filledTemplate : filledTemplate.BindsAll templatesLoaded := by
  have bound : ∀ id, TypeBinding.definition id ∈ filledTemplate.bindings.values → id = 0 := by
    intro id member
    cases List.mem_singleton.mp member
    rfl
  refine ⟨⟨⟨"a.G", by decide +kernel⟩, fun binding member => ?_⟩, fun id member => ?_,
    fun parameter declared => ?_⟩
  · exact ⟨0, List.mem_singleton.mp member, "a.Q", by decide +kernel⟩
  · rw [bound id member]
    decide +kernel
  · have names : (templatesLoaded.definition filledTemplate.generic).typeParameterNames = ["T"] := by
      decide +kernel
    rw [Definition.hasTypeParameter_iff, names, List.mem_singleton] at declared
    rw [declared]
    rfl

/-- In the instance the placeholder is the primitive, and the other sub-component the instance with
the primitive. -/
theorem fills_template :
    ∃ id reached, filledTemplate.load registeredOnly.registry registeredOnly.load templatesLoaded =
        (.ok id, reached) ∧ (reached.definition id).typeParameters = [] ∧
      (∃ placeholder ∈ (reached.definition id).components, placeholder.resolvedId? = some 0) ∧
      ∃ holder ∈ (reached.definition id).components, ∃ target,
        holder.resolvedId? = some target ∧ reached.cache.find? "a.H<a.Q>" = some target ∧
          (reached.definition target).isGeneric = false := by
  have succeeds : (filledTemplate.load registeredOnly.registry registeredOnly.load
      templatesLoaded).1.toOption.any (fun _ =>
        let reached := (filledTemplate.load registeredOnly.registry registeredOnly.load
          templatesLoaded).2
        reached.log.errors = [] ∧
          (∀ id < reached.arena.size, '|' ∉ (reached.definition id).name.toList) ∧
          reached.NamesShallow ∧
          ∀ component ∈ (templatesLoaded.definition filledTemplate.generic).components,
            ∀ reference ∈ component.definition,
              reference.usesTypes filledTemplate.bindings = true ∧
                (reference.instantiate reached filledTemplate.bindings).text = "a.H<a.Q>") =
        true := by
    decide +kernel
  obtain ⟨id, outcome, silent, separated, shallow, references⟩ := exists_ok_of_any succeeds
  generalize made : filledTemplate.load registeredOnly.registry registeredOnly.load templatesLoaded =
    ended at outcome silent separated shallow references
  obtain ⟨result, reached⟩ := ended
  cases outcome
  have undecorated : ∀ definition ∈ templates, ∀ component ∈ definition.components,
      component.resolved = none := by
    decide
  have replace := instances_replace_type_parameters registeredOnly rfl parsesPlainly_registeredOnly
  have sound : templatesLoaded.Sound True := replace.1 .default templates ["a.G", "a.Q"] undecorated
  have unknown : templatesLoaded.isKnown (filledTemplate.instanceName templatesLoaded) = false := by
    decide +kernel
  obtain ⟨soundReached, -, closes⟩ := replace.2 templatesLoaded registeredOnly.load filledTemplate
    id reached sound (.inl rfl) bindsAll_filledTemplate unknown made
  obtain ⟨typeParameters, fills⟩ := closes reached soundReached (.refl reached) silent
  have shape :
      (∃ component ∈ (templatesLoaded.definition filledTemplate.generic).components,
        component.typeParameter = some "T") ∧
      ∃ component ∈ (templatesLoaded.definition filledTemplate.generic).components,
        component.typeParameter = none ∧ component.definition.isSome = true := by
    decide +kernel
  obtain ⟨⟨first, isFirst, isPlaceholder⟩, second, isSecond, noPlaceholder, isReference⟩ := shape
  obtain ⟨placeholder, among, fillsFirst, -⟩ := exists_right_of_forall₂ fills first isFirst
  obtain ⟨holder, amongAlso, fillsSecond, -⟩ := exists_right_of_forall₂ fills second isSecond
  obtain ⟨bound, isBound, isPrimitive⟩ := fillsFirst.placeholder "T" isPlaceholder
  cases isBound
  obtain ⟨reference, isReference⟩ := Option.isSome_iff_exists.mp isReference
  obtain ⟨uses, text⟩ := references second isSecond reference isReference
  obtain ⟨target, isTarget, -, spelled, notGeneric⟩ :=
    fillsSecond.replaced noPlaceholder reference isReference uses
  rw [text] at spelled
  have separates : reached.SeparatesKeys := ⟨silent, separated⟩
  exact ⟨id, reached, rfl, typeParameters, ⟨placeholder, among, isPrimitive⟩, holder, amongAlso,
    target, isTarget, spelled separates (by decide +kernel),
    notGeneric (shallow.isClear separates)⟩

/-- A reference to a generic definition with one definition for its type parameter. -/
def applied (generic argument : String) : Reference :=
  ⟨generic, [], [⟨none, .definition (.ofName argument), .generated⟩], .generated, none⟩

def slot (name : String) (reference : Reference) : Component :=
  ⟨name, some reference, none, .generated, .none, none, false⟩

/-- Primitives, a generic composite that holds what it is given, one that holds this and more, and a
composite with an instance. -/
def nesting (primitives : List String) (components : List Component) (root argument : String) :
    List Definition :=
  primitives.map (fun name =>
    { Definition.ofKind name .primitive with sources := [.ofPath (name ++ ".c")] }) ++
  [ { Definition.ofKind "a.H" .composite with
      typeParameters := [⟨"T", none, .generated⟩]
      components := [⟨"p", none, some "T", .generated, .none, none, false⟩] },
    { Definition.ofKind "a.G" .composite with
      typeParameters := [⟨"T", none, .generated⟩]
      components := ⟨"p", none, some "T", .generated, .none, none, false⟩ :: components },
    { Definition.ofKind root .composite with components := [slot "g" (applied "a.G" argument)] } ]

/-- The compilation succeeds, and a sub-component of an instance without type parameters designates
a definition of the given name. -/
def HoldsNamed (definitions : List Definition) (root holder part designated : String)
    (generic : Bool) : Prop :=
  ∃ compiled, (registeredOnly.compile (.ofDefinitions .default definitions) [root]).outcome =
      .ok compiled ∧
    ∃ id target, compiled.context.cache.find? holder = some id ∧
      (compiled.context.definition id).typeParameters = [] ∧
      (∃ component ∈ (compiled.context.definition id).components,
        component.name = part ∧ component.resolvedId? = some target) ∧
      (compiled.context.definition target).name = designated ∧
      (compiled.context.definition target).isGeneric = generic

theorem holdsNamed_of_any {definitions : List Definition} {root holder part designated : String}
    {generic : Bool} (id target : DefinitionId)
    (succeeds : (registeredOnly.compile (.ofDefinitions .default definitions)
      [root]).outcome.toOption.any (fun compiled =>
        compiled.context.cache.find? holder = some id ∧
        (compiled.context.definition id).typeParameters.isEmpty = true ∧
        (∃ component ∈ (compiled.context.definition id).components,
          component.name = part ∧ component.resolvedId? = some target) ∧
        (compiled.context.definition target).name = designated ∧
        (compiled.context.definition target).isGeneric = generic) = true) :
    HoldsNamed definitions root holder part designated generic := by
  obtain ⟨compiled, outcome, found, closed, rest⟩ := exists_ok_of_any succeeds
  exact ⟨compiled, outcome, id, target, found, List.isEmpty_iff.mp closed, rest⟩

/-- The second of two sub-components with the same reference keeps the type parameter. A bound name
that is not full is read again where the instance is, so that the placeholder has one definition and
the other sub-component the instance with another one. A generic definition may be bound, and the
placeholder becomes it. -/
theorem leaves_type_parameters :
    HoldsNamed (nesting ["a.Q"] [slot "c" (applied "a.H" "T"), slot "d" (applied "a.H" "T")]
      "a.Top" "a.Q") "a.Top" "a.G<a.Q>" "d" "a.H<T>" true ∧
    HoldsNamed (nesting ["Q", "a.Q"] [slot "c" (applied "a.H" "T")] "b.Top" "Q")
      "b.Top" "a.G<Q>" "p" "Q" false ∧
    HoldsNamed (nesting ["Q", "a.Q"] [slot "c" (applied "a.H" "T")] "b.Top" "Q")
      "b.Top" "a.G<Q>" "c" "a.H<a.Q>" false ∧
    HoldsNamed (nesting [] [] "a.Top" "a.H") "a.Top" "a.G<a.H>" "p" "a.H" true :=
  ⟨holdsNamed_of_any 5 4 (by decide +kernel), holdsNamed_of_any 6 0 (by decide +kernel),
    holdsNamed_of_any 6 7 (by decide +kernel), holdsNamed_of_any 3 0 (by decide +kernel)⟩

end FrontEnd

end Adl
