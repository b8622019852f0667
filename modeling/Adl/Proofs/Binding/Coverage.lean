import Adl.Proofs.Binding.Soundness
import Adl.Proofs.Foundation.Additions
import Mathlib.Data.List.Nodup

namespace Adl

open Step Context

/-! What a compilation that succeeds guarantees of mandatory clients: a binding starts from
every element, and only one. That there is one comes from the check of what is unbound, that there
is no other from the normalization, and that all elements are meant from the expansion. -/

/-- A singleton is one element without an index, and a collection one for each index below its
size. -/
def Interface.IsElement (interface : Interface) (index : Option UInt32) : Prop :=
  match interface.cardinality, index with
  | .singleton, none => True
  | .collection (some size), some index => index < size
  | _, _ => False

instance (interface : Interface) (index : Option UInt32) : Decidable (interface.IsElement index) := by
  unfold Interface.IsElement
  split <;> infer_instance

namespace Definition

variable {extends? : String → String → Bool} {context before after : Context}
  {definition : Definition} {component : String} {interface : Interface}

/-! ## Elements that are bound -/

/-- Each element of an interface is the client end of exactly one binding. -/
def BindsOnce (definition : Definition) (component : String) (interface : Interface) : Prop :=
  ∀ index, interface.IsElement index →
    (definition.bindings.map (·.client)).count ⟨component, interface.name, index⟩ = 1

/-- The bindings from an interface end at interfaces that are known, and at none of unknown size as
a whole. -/
def LeadsToKnown (definition : Definition) (context : Context) (component : String)
    (interface : Interface) : Prop :=
  ∀ binding ∈ definition.bindings, binding.client.component = component →
    binding.client.interface = interface.name →
    ∃ server, definition.endpointInterface context binding.server = .found server ∧
      (binding.server.index = none → server.IsSized)

instance (found : EndpointInterface) (Holds : Interface → Prop) [DecidablePred Holds] :
    Decidable (∃ interface, found = .found interface ∧ Holds interface) :=
  match found with
  | .found interface => decidable_of_iff (Holds interface) (by simp)
  | .unresolved | .unknownComponent | .unknownInterface => isFalse (by simp)

instance (interface : Interface) : Decidable interface.IsSized :=
  inferInstanceAs (Decidable (_ ≠ _))

instance : Decidable (definition.LeadsToKnown context component interface) :=
  inferInstanceAs (Decidable (∀ binding ∈ definition.bindings, _ → _ → _))

/-- An index stands for a binding that has it. -/
theorem exists_of_mem_indices {index : Option UInt32}
    (member : index ∈ (definition.bindings.filter fun binding =>
      binding.client.component == component &&
        binding.client.interface == interface.name).map (·.client.index)) :
    ∃ binding ∈ definition.bindings, binding.client.component = component ∧
      binding.client.interface = interface.name ∧ binding.client.index = index := by
  obtain ⟨binding, among, same⟩ := List.mem_map.mp member
  obtain ⟨isBinding, starts⟩ := List.mem_filter.mp among
  obtain ⟨sameComponent, sameInterface⟩ := Bool.and_eq_true_iff.mp starts
  exact ⟨binding, isBinding, eq_of_beq sameComponent, eq_of_beq sameInterface, same⟩

/-- A binding starts from a bound interface. -/
theorem exists_of_isBound (bound : definition.isBound component interface = true) :
    ∃ binding ∈ definition.bindings, binding.client.component = component ∧
      binding.client.interface = interface.name := by
  unfold isBound at bound
  dsimp only at bound
  split at bound
  · exact nomatch bound
  · rename_i present
    obtain ⟨index, member⟩ := List.exists_mem_of_ne_nil _ (mt List.isEmpty_iff.mpr present)
    obtain ⟨binding, isBinding, sameComponent, sameInterface, -⟩ := exists_of_mem_indices member
    exact ⟨binding, isBinding, sameComponent, sameInterface⟩

/-- One starts from the whole of a bound collection, or one from each index. -/
theorem exists_index_of_isBound (bound : definition.isBound component interface = true)
    {size index : UInt32} (collection : interface.cardinality = .collection (some size))
    (within : index < size) :
    ∃ binding ∈ definition.bindings, binding.client.component = component ∧
      binding.client.interface = interface.name ∧
      (binding.client.index = none ∨ binding.client.index = some index) := by
  unfold isBound at bound
  dsimp only at bound
  split at bound
  · exact nomatch bound
  · split at bound
    · rename_i whole
      have isCollection : (!interface.isCollection) ≠ true := by
        simp [Interface.isCollection, Interface.isSingleton, collection]
      have member := (Bool.or_eq_true_iff.mp whole).resolve_left isCollection
      obtain ⟨binding, isBinding, sameComponent, sameInterface, isWhole⟩ :=
        exists_of_mem_indices (List.contains_iff_mem.mp member)
      exact ⟨binding, isBinding, sameComponent, sameInterface, .inl isWhole⟩
    · have count : interface.elementCount? = some size.toNat := by
        simp [Interface.elementCount?, collection]
      rw [count] at bound
      dsimp only at bound
      rw [Nat.all_eq_finRange_all] at bound
      have each := List.all_eq_true.mp bound ⟨index.toNat, within⟩ (List.mem_finRange _)
      dsimp only at each
      rw [UInt32.ofNat_toNat] at each
      obtain ⟨binding, isBinding, sameComponent, sameInterface, isIndex⟩ :=
        exists_of_mem_indices (List.contains_iff_mem.mp each)
      exact ⟨binding, isBinding, sameComponent, sameInterface, .inr isIndex⟩

/-- From each element of a wired interface that is bound one binding starts. -/
theorem Wired.bindsOnce (wired : definition.Wired extends? context)
    (found : ∀ index, definition.endpointInterface context ⟨component, interface.name, index⟩ =
      .found interface)
    (sized : interface.IsSized) (bound : definition.isBound component interface = true)
    (known : definition.LeadsToKnown context component interface) :
    definition.BindsOnce component interface := by
  have fits : ∀ binding ∈ definition.bindings, binding.client.component = component →
      binding.client.interface = interface.name → binding.client.Fits interface := by
    intro binding member sameComponent sameInterface
    obtain ⟨server, serverFound, serverSized⟩ := known binding member sameComponent sameInterface
    have clientFound : definition.endpointInterface context binding.client = .found interface := by
      rw [← found binding.client.index, ← sameComponent, ← sameInterface]
    exact wired.fits member clientFound serverFound sized serverSized
  have distinct : (definition.bindings.map (·.client)).Nodup := by
    refine List.Nodup.of_map Endpoint.text ?_
    rw [List.map_map]
    exact wired.single
  have member : ∀ binding ∈ definition.bindings, binding.client.component = component →
      binding.client.interface = interface.name →
      ⟨component, interface.name, binding.client.index⟩ ∈ definition.bindings.map (·.client) := by
    intro binding member sameComponent sameInterface
    rw [← sameComponent, ← sameInterface]
    exact List.mem_map_of_mem (f := (·.client)) member
  intro index isElement
  refine List.count_eq_one_of_mem distinct ?_
  unfold Interface.IsElement at isElement
  split at isElement
  · rename_i singleton
    obtain ⟨binding, isBinding, sameComponent, sameInterface⟩ := exists_of_isBound bound
    have single : binding.client.index = none := by
      have indexed := (fits binding isBinding sameComponent sameInterface).1
      simpa [Interface.isCollection, Interface.isSingleton, singleton] using indexed
    exact single ▸ member binding isBinding sameComponent sameInterface
  · rename_i size index collection
    obtain ⟨binding, isBinding, sameComponent, sameInterface, whole | isIndex⟩ :=
      exists_index_of_isBound bound collection isElement
    · have indexed := (fits binding isBinding sameComponent sameInterface).1
      simp [Interface.isCollection, Interface.isSingleton, collection, whole] at indexed
    · exact isIndex ▸ member binding isBinding sameComponent sameInterface
  · exact isElement.elim

/-! ## Interfaces that must be bound -/

/-- A sub-component's definition, or the type to which its placeholder conforms. -/
def designated? (definition : Definition) (component : Component) : Option DefinitionId :=
  component.resolvedId?.or do
    let parameter ← definition.typeParameter? (← component.typeParameter)
    (← parameter.conformsTo).resolvedId?

theorem componentDefinition?_eq (apart : definition.NamesApart) {part : Component}
    (member : part ∈ definition.components) :
    definition.componentDefinition? part.name = definition.designated? part := by
  have found : definition.component? part.name = some part := find?_of_nodup apart member
  rw [componentDefinition?, found]
  rfl

theorem insideInterface?_of_mem (twinned : definition.IsTwinned)
    (distinct : (definition.interfaces.map (·.name)).Nodup)
    (member : interface ∈ definition.insideInterfaces) :
    definition.insideInterface? interface.name = some interface := by
  rcases List.mem_append.mp member with internal | external
  · rw [insideInterface?, internalInterface?, find?_of_nodup twinned.distinct internal]
    rfl
  · obtain ⟨declared, among, rfl⟩ := List.mem_map.mp external
    obtain ⟨isDeclared, untwinned⟩ := List.mem_filter.mp among
    change definition.insideInterface? declared.name = _
    rw [insideInterface?, Option.isNone_iff_eq_none.mp untwinned, interface?,
      find?_of_nodup distinct isDeclared]
    rfl

/-- Where nothing is unbound, what must be bound is. -/
theorem isBound_of_covered (covered : definition.unbound context = []) :
    (∀ interface ∈ definition.insideInterfaces, mustBeBound interface = true →
      definition.isBound Endpoint.selfName interface = true) ∧
    ∀ part ∈ definition.components, ∀ id, definition.componentDefinition? part.name = some id →
      ∀ interface ∈ (context.definition id).interfaces, mustBeBound interface = true →
        definition.isBound part.name interface = true := by
  obtain ⟨inside, outside⟩ := List.append_eq_nil_iff.mp covered
  constructor
  · intro interface member must
    have bound := List.filter_eq_nil_iff.mp (List.map_eq_nil_iff.mp inside) interface member
    simpa [must] using bound
  · intro part member id designates interface among must
    have none := List.flatMap_eq_nil_iff.mp outside part member
    rw [unboundOf, designates] at none
    have bound := List.filter_eq_nil_iff.mp (List.map_eq_nil_iff.mp none) interface among
    simpa [must] using bound

/-- What is known later was known before. -/
theorem LeadsToKnown.earlier {late : Context}
    (offers : ∀ id, (late.definition id).Offers (before.definition id))
    (wired : definition.Wired extends? before)
    (known : definition.LeadsToKnown late component interface) :
    definition.LeadsToKnown before component interface := by
  intro binding member sameComponent sameInterface
  obtain ⟨server, found, sized⟩ := known binding member sameComponent sameInterface
  obtain ⟨other, foundBefore, same⟩ :=
    found_before offers (wired.accepted binding member).server found
  refine ⟨other, foundBefore, fun whole unknown => sized whole ?_⟩
  exact (congrArg Interface.cardinality same).trans unknown

/-- All elements of mandatory clients are bound once, inside of a composite and at its
sub-components. -/
def IsBoundOnce (definition : Definition) (context : Context) : Prop :=
  (∀ interface ∈ definition.insideInterfaces, mustBeBound interface = true →
    definition.BindsOnce Endpoint.selfName interface) ∧
  ∀ part ∈ definition.components, ∀ id, definition.designated? part = some id →
    ∀ interface ∈ (context.definition id).interfaces, mustBeBound interface = true →
      definition.BindsOnce part.name interface

end Definition

namespace FrontEnd

/-- Where a compilation succeeds, each element of a mandatory client in a concrete composite is
bound exactly once, unless a binding of that client leads to an interface that is not known. A
sub-component must have been loaded before, and not be named like the composite itself. -/
theorem clients_bound_once (frontEnd : FrontEnd) (options : Options) (definitions : List Definition)
    (roots : List String) (predefined : frontEnd.registry = .predefined)
    (plain : ∀ definition, definition ∈ definitions ∨ frontEnd.Parses definition →
      definition.internalInterfaces = [] ∧ definition.IsOrdinary) {compiled : Compiled}
    (succeeds : (frontEnd.compile (.ofDefinitions options definitions) roots).outcome =
      .ok compiled) (id : DefinitionId) (loaded : compiled.context.Loaded id)
    (composite : (compiled.context.definition id).isComposite = true)
    (concrete : (compiled.context.definition id).isAbstract = false) :
    (∀ interface ∈ (compiled.context.definition id).insideInterfaces,
      Definition.mustBeBound interface = true →
      (compiled.context.definition id).LeadsToKnown compiled.context Endpoint.selfName interface →
      (compiled.context.definition id).BindsOnce Endpoint.selfName interface) ∧
    ∀ part ∈ (compiled.context.definition id).components, part.name ≠ Endpoint.selfName →
      ∀ target, (compiled.context.definition id).designated? part = some target →
      compiled.context.LoadedBy target id →
      ∀ interface ∈ (compiled.context.definition target).interfaces,
      Definition.mustBeBound interface = true →
      (compiled.context.definition id).LeadsToKnown compiled.context part.name interface →
      (compiled.context.definition id).BindsOnce part.name interface := by
  have harmless : frontEnd.registry.IsHarmless :=
    predefined ▸ AnnotationRegistry.isHarmless_predefined
  obtain ⟨sound, silent, advances⟩ := advances_compile harmless (fun never : False => never.elim) roots
    (sound_ofDefinitions options definitions False.elim) succeeds
  obtain ⟨twinned, name, middle, before, closed, offers, wired⟩ :=
    wired_of_compile predefined plain succeeds loaded
  obtain ⟨inside, outside⟩ := Definition.isBound_of_covered (wired.covered composite concrete)
  have apart : (compiled.context.definition id).NamesApart :=
    advances.path.namesApart harmless (hasSlots_ofDefinitions options definitions)
      (fun id loaded => absurd loaded (not_loaded_ofDefinitions options definitions id)) silent id
      loaded
  constructor
  · intro interface member must known
    have found := Definition.insideInterface?_of_mem twinned wired.distinct member
    refine wired.bindsOnce (fun index => ?_) (twinned.sized_inside wired.sized found)
      (inside interface member must) (known.earlier offers wired)
    exact Definition.endpointInterface_eq_found_iff.mpr (.inl ⟨rfl, found⟩)
  · intro part member other target designates loadedBy interface among must known
    have designated := (Definition.componentDefinition?_eq apart member).trans designates
    have same := closed.definition_of_loadedBy sound loadedBy
    obtain ⟨-, _, _, _, -, -, wiredTarget⟩ :=
      wired_of_compile predefined plain succeeds (loadedBy.loaded sound)
    have declared : (before.definition target).interface? interface.name = some interface :=
      same ▸ find?_of_nodup wiredTarget.distinct among
    refine wired.bindsOnce (fun index => ?_) (wiredTarget.sized interface among)
      (outside part member target designated interface (same ▸ among) must)
      (known.earlier offers wired)
    refine Definition.endpointInterface_eq_found_iff.mpr (.inr ⟨?_, target, designated, declared⟩)
    exact beq_false_of_ne other

/-- A composite of the given parts. -/
def holding (interfaces : List Interface) (components : List Component)
    (bindings : List Binding) : Definition :=
  { Definition.ofKind "a.Top" .composite with interfaces, components, bindings }

def wire (component interface server received : String) : Binding :=
  ⟨⟨component, interface, none⟩, ⟨server, received, none⟩, .generated, .none, false⟩

def part (name definition : String) : Component :=
  ⟨name, some (.ofName definition), none, .generated, .none, none, false⟩

/-- What is received and what one part requires are bound to another part. -/
def relaying : List Definition :=
  [ offering "a.C" { Interface.ofRole .client "x" "s" with cardinality := .collection (some 2) },
    offering "a.S" { Interface.ofRole .server "y" "s" with cardinality := .collection (some 3) },
    holding [{ Interface.ofRole .server "z" "s" with cardinality := .collection (some 2) }]
      [part "c" "a.C", part "d" "a.S"] [wire "this" "z" "d" "y", wire "c" "x" "d" "y"] ]

/-- Both collections are bound by element. -/
theorem relayed_once :
    ∃ compiled, (registeredOnly.compile (.ofDefinitions .default relaying) ["a.Top"]).outcome =
        .ok compiled ∧
      compiled.context.Loaded 2 ∧
      (∃ interface ∈ (compiled.context.definition 2).insideInterfaces,
        interface.IsElement (some 1) ∧
          (compiled.context.definition 2).BindsOnce Endpoint.selfName interface) ∧
      ∃ part ∈ (compiled.context.definition 2).components,
        ∃ interface ∈ (compiled.context.definition 0).interfaces,
          interface.IsElement (some 1) ∧
            (compiled.context.definition 2).BindsOnce part.name interface := by
  have succeeds : (registeredOnly.compile (.ofDefinitions .default relaying)
      ["a.Top"]).outcome.toOption.any (fun compiled =>
        compiled.context.cache.find? "a.Top" = some 2 ∧
        compiled.context.cache.entries = [("a.C", 0), ("a.S", 1), ("a.Top", 2)] ∧
        (compiled.context.definition 2).isComposite = true ∧
        (compiled.context.definition 2).isAbstract = false ∧
        (∃ interface ∈ (compiled.context.definition 2).insideInterfaces,
          Definition.mustBeBound interface = true ∧
          (compiled.context.definition 2).LeadsToKnown compiled.context Endpoint.selfName
            interface ∧
          interface.IsElement (some 1)) ∧
        ∃ part ∈ (compiled.context.definition 2).components, part.name ≠ Endpoint.selfName ∧
          (compiled.context.definition 2).designated? part = some 0 ∧
          ∃ interface ∈ (compiled.context.definition 0).interfaces,
            Definition.mustBeBound interface = true ∧
            (compiled.context.definition 2).LeadsToKnown compiled.context part.name interface ∧
            interface.IsElement (some 1)) = true := by
    decide +kernel
  obtain ⟨compiled, outcome, loaded, cache, composite, concrete,
      ⟨interface, isInside, must, known, element⟩, part, isPart, outside, designates,
      required, isRequired, mustAlso, knownAlso, elementAlso⟩ := exists_ok_of_any succeeds
  have boundOnce := clients_bound_once registeredOnly .default relaying ["a.Top"] rfl
    (plain_of_untyped (by decide)) outcome 2 ⟨"a.Top", loaded⟩ composite concrete
  have loadedBy : compiled.context.LoadedBy 0 2 := by
    refine ⟨0, 2, "a.C", "a.Top", by decide, ?_, ?_⟩ <;> rw [cache] <;> rfl
  exact ⟨compiled, outcome, ⟨"a.Top", loaded⟩,
    ⟨interface, isInside, element, boundOnce.1 interface isInside must known⟩,
    part, isPart, required, isRequired, elementAlso,
    boundOnce.2 part isPart outside 0 designates loadedBy required isRequired mustAlso knownAlso⟩

/-- A compilation succeeds and leaves an element of a mandatory client unbound. -/
def LeavesUnbound (definitions : List Definition) (roots : List String) (id : DefinitionId) :
    Prop :=
  ∃ compiled, (registeredOnly.compile (.ofDefinitions .default definitions) roots).outcome =
      .ok compiled ∧
    compiled.context.Loaded id ∧ (compiled.context.definition id).isComposite = true ∧
    (compiled.context.definition id).isAbstract = false ∧
    ¬(compiled.context.definition id).IsBoundOnce compiled.context

/-- An element of a mandatory client, inside of a composite or at a part, from which not just one
binding starts. -/
def MissesElement (definition : Definition) (context : Context) : Prop :=
  (∃ interface ∈ definition.insideInterfaces, Definition.mustBeBound interface = true ∧
    ∃ index ∈ [none, some 0], interface.IsElement index ∧
      (definition.bindings.map (·.client)).count ⟨Endpoint.selfName, interface.name, index⟩ ≠ 1) ∨
  ∃ part ∈ definition.components, ∃ id ∈ definition.designated? part,
    ∃ interface ∈ (context.definition id).interfaces, Definition.mustBeBound interface = true ∧
    ∃ index ∈ [none, some 0], interface.IsElement index ∧
      (definition.bindings.map (·.client)).count ⟨part.name, interface.name, index⟩ ≠ 1

instance (definition : Definition) (context : Context) :
    Decidable (MissesElement definition context) := by
  unfold MissesElement
  infer_instance

theorem not_isBoundOnce_of_missesElement {definition : Definition} {context : Context}
    (misses : MissesElement definition context) : ¬definition.IsBoundOnce context := by
  rintro ⟨inside, outside⟩
  rcases misses with ⟨interface, member, must, index, -, isElement, other⟩ |
    ⟨part, isPart, id, designated, interface, member, must, index, -, isElement, other⟩
  · exact other (inside interface member must index isElement)
  · exact other (outside part isPart id designated interface member must index isElement)

theorem leavesUnbound_of_any {definitions : List Definition} {roots : List String} (name : String)
    {id : DefinitionId}
    (succeeds : (registeredOnly.compile (.ofDefinitions .default definitions)
      roots).outcome.toOption.any (fun compiled =>
        compiled.context.cache.find? name = some id ∧
        (compiled.context.definition id).isComposite = true ∧
        (compiled.context.definition id).isAbstract = false ∧
        MissesElement (compiled.context.definition id) compiled.context) = true) :
    LeavesUnbound definitions roots id := by
  obtain ⟨compiled, outcome, loaded, composite, concrete, misses⟩ := exists_ok_of_any succeeds
  exact ⟨compiled, outcome, ⟨name, loaded⟩, composite, concrete,
    not_isBoundOnce_of_missesElement misses⟩

/-- What is received is bound as a whole to a placeholder of which nothing is known. -/
def relayingToPlaceholder : List Definition :=
  [ { holding [{ Interface.ofRole .server "x" "s" with cardinality := .collection (some 2) }]
        [⟨"p", none, some "T", .generated, .none, none, false⟩] [wire "this" "x" "p" "y"] with
      name := "a.G"
      typeParameters := [⟨"T", none, .generated⟩] } ]

/-- A part that counts as resolved before it is loaded; what it inherits comes too late. -/
def holdingUnloaded : List Definition :=
  [ { Definition.ofKind "a.C" .primitive with
      parents := [.ofName "a.T"]
      sources := [.ofPath "c.c"] },
    { Definition.ofKind "a.T" .type with interfaces := [.ofRole .client "x" "s"] },
    holding [] [{ part "c" "a.C" with resolved := some ⟨"a.C", some 0⟩ }] [] ]

/-- A part with the name by which the composite refers to itself. -/
def holdingNamesake : List Definition :=
  [ offering "a.C" { Interface.ofRole .client "x" "s" with cardinality := .collection (some 2) },
    offering "a.S" (.ofRole .server "y" "s"),
    holding [.ofRole .server "x" "s"] [part "this" "a.C", part "d" "a.S"]
      [wire "this" "x" "d" "y"] ]

/-- What leads to a placeholder that conforms to nothing stays as it is; a part that was not
loaded before may require more later; and a part may take the name of the composite itself. -/
theorem leaves_elements_unbound :
    LeavesUnbound relayingToPlaceholder ["a.G"] 0 ∧
      LeavesUnbound holdingUnloaded ["a.Top", "a.C"] 2 ∧ LeavesUnbound holdingNamesake ["a.Top"] 2 :=
  ⟨leavesUnbound_of_any "a.G" (by decide +kernel), leavesUnbound_of_any "a.Top" (by decide +kernel),
    leavesUnbound_of_any "a.Top" (by decide +kernel)⟩

end FrontEnd

end Adl
