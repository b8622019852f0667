import Adl.Proofs.Annotation.Processing
import Adl.Proofs.Template.Mentions
import Adl.Reference.Substitution

namespace Adl

open Step Context

/-! Copies of definitions: with replaced parameters, and instances of generic ones. Their
sub-components designate what those of the original do, what is bound, or nothing. -/

variable {frontEnd : FrontEnd} {strict : Prop} {Extra : Context → Prop} {context : Context}
  {load twin : String → Loading DefinitionId}

namespace Context

theorem linked_links_iff {definition : Definition} :
    context.Linked definition.links ↔
      ∀ component ∈ definition.components, ∀ resolved, component.resolved = some resolved →
        context.Designates resolved := by
  simp only [Linked, Definition.links, List.forall_mem_map, Component.link]

theorem Sound.linked_definition (sound : context.Sound strict) (isStrict : strict)
    (id : DefinitionId) : context.Linked (context.definition id).links := by
  by_cases within : id < context.arena.size
  · exact sound.linked isStrict id within
  · have absent : context.definition id = default := by
      simp [Context.definition, Array.getElem?_eq_none (Nat.le_of_not_lt within)]
    rw [absent]
    exact fun _ member => (List.not_mem_nil member).elim

end Context

/-! ## Replaced parameters -/

theorem Component.name_substitute (bindings : ValueBindings) (component : Component) :
    (component.substitute bindings).name = component.name := by
  unfold Component.substitute
  split
  · split <;> rfl
  · rfl

theorem Component.resolved_substitute (bindings : ValueBindings) (component : Component)
    {resolved : Resolved} (found : (component.substitute bindings).resolved = some resolved) :
    component.resolved = some resolved := by
  unfold Component.substitute at found
  split at found
  · split at found
    · exact nomatch found
    · exact found
  · exact found

theorem Definition.linked_substitute {definition : Definition} (name : String)
    (bindings : ValueBindings) (linked : context.Linked definition.links) :
    context.Linked (definition.substitute name bindings).links := by
  rw [linked_links_iff] at linked ⊢
  intro changed member resolved found
  obtain ⟨component, original, rfl⟩ := List.mem_map.mp member
  exact linked component original resolved (component.resolved_substitute bindings found)

/-- What is known of a substitution in the definition of a name, for the bindings that were
asked for, once it was tried. -/
def Substitution.Holds (strict : Prop) (base : String) (asked : Option ValueBindings)
    (substitution : Substitution) (context : Context) : Prop :=
  match substitution with
  | .notApplicable => asked = none
  | .substituted id => ∃ bindings, asked = some bindings ∧
      context.cache.find? (Definition.substitutedName base bindings) = some id
  | .failed => strict → context.log.errors ≠ []

/-- What comes of the load of a copy. -/
def Substitution.ofLoaded : Option DefinitionId → Loading Substitution
  | some id => return .substituted id
  | none => return .failed

theorem agree_substituteValues (lasts : Lasts frontEnd strict Extra) (loads : Loads frontEnd strict Extra load twin)
    (sound : context.Sound strict) (extra : Extra context) (reference : Reference)
    (target : DefinitionId) (allowReferences : Bool) :
    Agree (evolving frontEnd strict none Extra) context
      (substituteValues load reference target allowReferences)
      (substituteValues twin reference target allowReferences)
      (Substitution.Holds strict (context.definition target).name
        ((context.definition target).bindings? reference allowReferences)) := by
  refine .read rfl ?_
  split
  · rename_i notAsked
    exact .pure ⟨sound, extra⟩ notAsked
  · rename_i bindings asked
    generalize base : Definition.substitutedName (context.definition target).name bindings = copy
    have loaded : ∀ {reached : Context}, reached.Sound strict → Extra reached →
        Agree (evolving frontEnd strict none Extra) reached
          (Loading.orRecorded (load copy) reference.span >>= Substitution.ofLoaded)
          (Loading.orRecorded (twin copy) reference.span >>= Substitution.ofLoaded)
          (Substitution.Holds strict (context.definition target).name
            ((context.definition target).bindings? reference allowReferences)) := by
      intro reached sound extra
      refine .bind (Loading.agree_orRecorded lasts reference.span
        (loads copy reached sound extra)) ?_
      intro found later valid _ answer
      cases found with
      | some id => exact .pure valid ⟨bindings, asked, base ▸ answer⟩
      | none => exact .pure valid answer
    refine .read rfl ?_
    dsimp only
    split
    · rename_i unknown
      refine .bind (Loading.agree_register sound extra lasts (by simpa using unknown) rfl ?_
        (.copied copy .start asked (base ▸ .copy _ bindings))) ?_
      · intro isStrict
        exact Definition.linked_substitute _ bindings (sound.linked_definition isStrict target)
      · intro _ reached valid _ _
        exact loaded valid.1 valid.2
    · exact loaded sound extra

/-! ## Instances -/

/-- The definition that holds a reference is generic. -/
def Context.IsGenericScope (context : Context) (scope : Option DefinitionId) : Prop :=
  ∃ id < context.arena.size, scope = some id ∧ (context.definition id).isGeneric = true

theorem Context.IsGenericScope.lasts {before after : Context} {own scope : Option DefinitionId}
    (evolves : Evolves own before after) (silent : after.log.errors = [])
    (generic : before.IsGenericScope scope) : after.IsGenericScope scope := by
  obtain ⟨id, within, isScope, isGeneric⟩ := generic
  exact ⟨id, Nat.lt_of_lt_of_le within evolves.size, isScope,
    (evolves.shapes silent id within).2 ▸ isGeneric⟩

/-- What may be bound to a type parameter: a loaded definition that can be instantiated, or
a type parameter of the definition that holds the reference. -/
def TypeBinding.IsBindable (strict : Prop) (scope : Option DefinitionId) (context : Context) :
    TypeBinding → Prop
  | .definition id => strict → context.Loaded id ∧ (context.definition id).isType = false ∧
      (context.definition id).isAbstract = false
  | .parameter _ => strict → context.log.errors = [] → context.IsGenericScope scope

def TypeBindings.AreBindable (strict : Prop) (scope : Option DefinitionId) (context : Context)
    (bindings : TypeBindings) : Prop :=
  ∀ binding ∈ bindings.values, binding.IsBindable strict scope context

variable {scope : Option DefinitionId}

theorem TypeBinding.IsBindable.lasts {before after : Context} {binding : TypeBinding}
    (bindable : binding.IsBindable strict scope before) (sound : before.Sound strict)
    (evolves : Evolves none before after) : binding.IsBindable strict scope after := by
  cases binding with
  | definition id =>
      intro isStrict
      obtain ⟨loaded, notType, notAbstract⟩ := bindable isStrict
      rw [sound.definition_of_loaded evolves nofun loaded]
      exact ⟨loaded.lasts evolves, notType, notAbstract⟩
  | parameter name =>
      exact fun isStrict silent =>
        (bindable isStrict (evolves.errors_eq_nil silent)).lasts evolves silent

/-- What was bound keeps its name. -/
theorem TypeBinding.IsBindable.name_eq {before after : Context} {binding : TypeBinding}
    (bindable : binding.IsBindable strict scope before) (isStrict : strict)
    (sound : before.Sound strict) (evolves : Evolves none before after) :
    binding.name after = binding.name before := by
  cases binding with
  | definition id =>
      exact congrArg Definition.name
        (sound.definition_of_loaded evolves nofun (bindable isStrict).1)
  | parameter name => rfl

namespace Component

variable {bindings : TypeBindings} {component : Component}

/-! What an instance has in the place of a sub-component: what is bound to the type parameter, a
reference that is to be resolved again, or the same. -/

theorem instantiate_of_bound {parameter : String}
    (isPlaceholder : component.typeParameter = some parameter) {id : DefinitionId}
    (bound : bindings.find? parameter = some (.definition id)) :
    component.instantiate context bindings = component.fill (context.definition id).name id := by
  simp only [instantiate, isPlaceholder, bound]

theorem instantiate_of_unbound {parameter : String}
    (isPlaceholder : component.typeParameter = some parameter)
    (unbound : bindings.find? parameter = none) :
    component.instantiate context bindings = component := by
  simp only [instantiate, isPlaceholder, unbound]

theorem instantiate_of_uses (noPlaceholder : component.typeParameter = none)
    {reference : Reference} (isDefinition : component.definition = some reference)
    (uses : reference.usesTypes bindings = true) :
    component.instantiate context bindings = { component with
      definition := some (reference.instantiate context bindings).clearResolution
      resolved := none } := by
  simp only [instantiate, noPlaceholder, isDefinition, uses, if_true]

theorem instantiate_of_not_uses (noPlaceholder : component.typeParameter = none)
    (unused : ∀ reference, component.definition = some reference →
      reference.usesTypes bindings = false) :
    component.instantiate context bindings = component := by
  unfold instantiate
  rw [noPlaceholder]
  cases isDefinition : component.definition with
  | none => rfl
  | some reference => simp [unused reference isDefinition]

theorem name_instantiate : (component.instantiate context bindings).name = component.name := by
  unfold instantiate
  split
  · split <;> rfl
  · split
    · split <;> rfl
    · rfl

end Component

theorem Component.designates_instantiate {bindings : TypeBindings}
    (sound : context.Sound strict) (isStrict : strict)
    (bindable : bindings.AreBindable strict scope context) {component : Component}
    (linked : ∀ resolved, component.resolved = some resolved → context.Designates resolved)
    {resolved : Resolved}
    (found : (component.instantiate context bindings).resolved = some resolved) :
    context.Designates resolved := by
  unfold Component.instantiate at found
  split at found
  · split at found
    · rename_i bound
      obtain ⟨loaded, notType, notAbstract⟩ := bindable _ (Table.mem_values_of_find? bound) isStrict
      cases found
      exact sound.designates loaded notType notAbstract
    · exact linked resolved found
    · exact linked resolved found
  · split at found
    · split at found
      · cases found
      · exact linked resolved found
    · exact linked resolved found

namespace InstanceRequest

variable {request : InstanceRequest} {name : String} {definition : Definition}

theorem linked_bare (sound : context.Sound strict) (isStrict : strict)
    (bindable : request.bindings.AreBindable strict scope context) :
    context.Linked (request.bare context name).links := by
  have linked := linked_links_iff.mp (sound.linked_definition isStrict request.generic)
  rw [linked_links_iff]
  intro changed member resolved found
  obtain ⟨component, original, rfl⟩ := List.mem_map.mp member
  exact Component.designates_instantiate sound isStrict bindable (linked component original) found

theorem IsFilled.keeps {original : Definition} {index : Nat} (filled : IsFilled original index)
    (keeps : definition.Keeps original) : IsFilled definition index := by
  intro component found
  have links := congrArg (fun links => links[index]?) keeps.links
  simp only [Definition.links, List.getElem?_map, found, Option.map_some] at links
  obtain ⟨other, foundOther, same⟩ := Option.map_eq_some_iff.mp links.symm
  have decorated := filled other foundOther
  rwa [show component.resolved = other.resolved from (congrArg Prod.fst same).symm]

theorem hasParameter_ensureParameter (definition : Definition) (name : String) :
    (definition.ensureParameter name).hasParameter name = true := by
  unfold Definition.ensureParameter
  split
  · assumption
  · simp [Definition.hasParameter]

theorem agree_exposeParameter {original : Definition} {index : Nat}
    (filled : IsFilled original index) (typeParameter bound parameter : String)
    (edits : original.Edits definition) :
    Agree reporting context
      (exposeParameter name index typeParameter bound definition parameter)
      (exposeParameter name index typeParameter bound definition parameter)
      fun changed _ => original.Edits changed := by
  have forwarded : ∀ hoisted,
      original.Edits { definition.ensureParameter hoisted with
        components := (definition.ensureParameter hoisted).components.modify index
          (forwardArgument parameter hoisted) } := by
    intro hoisted
    have ensured := edits.trans (definition.ensureParameter_edits hoisted)
    exact ensured.trans (.of_edit (.forwarded _ parameter
      (hasParameter_ensureParameter definition hoisted) (filled.keeps ensured.keeps)))
  refine .read rfl ?_
  split
  · refine .through (fun _ _ => True) (Loading.agree_infer _ _ _).forget ?_
    intro _ reached _ _ _
    exact .pure trivial (forwarded _)
  · exact .pure trivial (forwarded _)

theorem agree_exposeComponent {original : Definition} {bindings : TypeBindings}
    {placeholder : Component × Nat}
    (filled : ∀ parameter id, placeholder.1.typeParameter = some parameter →
      bindings.find? parameter = some (.definition id) → IsFilled original placeholder.2)
    (edits : original.Edits definition) :
    Agree reporting context (exposeComponent name bindings definition placeholder)
      (exposeComponent name bindings definition placeholder)
      fun changed _ => original.Edits changed := by
  unfold exposeComponent
  split
  · exact .pure trivial edits
  · rename_i parameter isPlaceholder
    split
    · rename_i id bound
      refine .read rfl ?_
      exact .foldlM (fun (changed : Definition) _ => original.Edits changed) trivial edits
        fun exposed _ _ _ _ edits =>
          agree_exposeParameter (filled parameter id isPlaceholder bound) _ _ exposed edits
    · exact .pure trivial edits

/-- Where a definition is bound to the type parameter of a sub-component, it is filled. -/
theorem isFilled_bare {component : Component} {index : Nat}
    (found : (context.definition request.generic).components[index]? = some component)
    {parameter : String} (isPlaceholder : component.typeParameter = some parameter)
    {id : DefinitionId} (bound : request.bindings.find? parameter = some (.definition id)) :
    IsFilled (request.bare context name) index := by
  intro filled foundFilled
  simp only [bare, List.getElem?_map, found, Option.map_some, Option.some.injEq] at foundFilled
  simp only [← foundFilled, Component.instantiate, isPlaceholder, bound, Component.fill,
    Option.isSome_some]

theorem agree_exposeParameters {start : Context}
    (same : context.definition request.generic = start.definition request.generic)
    (edits : (request.bare start name).Edits definition) :
    Agree reporting context (request.exposeParameters name definition)
      (request.exposeParameters name definition)
      fun changed _ => (request.bare start name).Edits changed := by
  refine .read rfl ?_
  rw [same]
  refine .foldlM (fun (changed : Definition) _ => (request.bare start name).Edits changed)
    trivial edits ?_
  intro placeholder member _ _ _ edits
  refine agree_exposeComponent (fun parameter id isPlaceholder bound => ?_) edits
  exact isFilled_bare (List.mem_zipIdx_iff_getElem?.mp member) isPlaceholder bound

theorem agree_processAnnotations {registry : AnnotationRegistry} {original : Definition}
    (harmless : registry.IsHarmless) (edits : original.Edits definition) :
    Agree reporting context (request.processAnnotations registry definition)
      (request.processAnnotations registry definition)
      fun changed _ => original.Edits changed := by
  refine .read rfl ?_
  refine .bind (AnnotationRegistry.agree_processSubComponents harmless _ edits) ?_
  intro changed reached _ _ edits
  exact AnnotationRegistry.agree_processDefinition harmless edits

/-- What is made is edited from the bare instance. -/
theorem agree_build {registry : AnnotationRegistry} (harmless : registry.IsHarmless)
    (layers : List TemplateLayer) :
    Agree reporting context (request.build registry layers name)
      (request.build registry layers name)
      fun made _ => (request.bare context name).Edits made := by
  refine .read rfl ?_
  refine Agree.mono (.foldlM (fun (made : Definition) (reached : Context) =>
    (request.bare context name).Edits made ∧
      reached.definition request.generic = context.definition request.generic)
    trivial ⟨.refl _, rfl⟩ ?_) fun _ _ _ _ kept => kept.1
  rintro layer _ made reached _ ⟨edits, same⟩
  have stays : ∀ (changed : Definition) later, True → Reports reached later →
      (request.bare context name).Edits changed →
      (request.bare context name).Edits changed ∧
        later.definition request.generic = context.definition request.generic :=
    fun _ _ _ reports edits => ⟨edits, (reports.definition _).trans same⟩
  cases layer with
  | parameters => exact (agree_exposeParameters same edits).mono stays
  | annotations => exact (agree_processAnnotations harmless edits).mono stays

/-- A bare instance depends on the definitions only. -/
theorem bare_of_definition {before after : Context} (same : after.definition = before.definition) :
    request.bare after name = request.bare before name := by
  have instantiated : ∀ bindings, (fun component : Component =>
      component.instantiate after bindings) = fun component =>
        component.instantiate before bindings := by
    intro bindings
    funext component
    have bound : ∀ reference : Reference,
        reference.instantiate after bindings = reference.instantiate before bindings :=
      Reference.instantiate_congr fun _ id _ => by rw [same]
    simp only [Component.instantiate, same, bound]
  simp only [bare, same, instantiated]

theorem agree_load {registry : AnnotationRegistry} (harmless : registry.IsHarmless)
    (lasts : Lasts frontEnd strict Extra) (loads : Loads frontEnd strict Extra load twin)
    (sound : context.Sound strict) (extra : Extra context)
    (bindable : request.bindings.AreBindable strict scope context) :
    Agree (evolving frontEnd strict none Extra) context (request.load registry load)
      (request.load registry twin)
      fun id reached => reached.cache.find? (request.instanceName context) = some id := by
  refine .read rfl ?_
  dsimp only
  split
  · rename_i unknown
    refine .through (fun made reached =>
      (request.bare context (request.instanceName context)).Edits made ∧
        reached.isKnown (request.instanceName context) = false ∧ Reports context reached)
      ?_ ?_
    · refine ((agree_build harmless layers).mono ?_).reported sound extra lasts
      intro made reached _ reports edits
      refine ⟨edits, ?_, reports⟩
      simp only [Context.isKnown, reports.cache, reports.registered, reports.registeredSources]
      simpa [Context.isKnown] using unknown
    · rintro made reached valid - ⟨edits, unknown, reports⟩
      refine .bind (Loading.agree_register valid.1 valid.2 lasts unknown edits.keeps.name ?_
        (.instantiated _ request .start (bare_of_definition (funext reports.definition) ▸ edits)
          (reports.definition request.generic ▸ .bound request context))) ?_
      · intro isStrict
        rw [edits.keeps.links]
        exact (linked_bare sound isStrict bindable).lasts sound reports.evolves (by simp)
      · intro _ later valid _ _
        exact loads _ later valid.1 valid.2
  · exact loads _ context sound extra

end InstanceRequest

end Adl
