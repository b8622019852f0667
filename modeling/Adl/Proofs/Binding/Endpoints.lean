import Adl.Binding.Coverage
import Adl.Binding.Expansion
import Adl.Binding.Checking

namespace Adl

/-! What the ends of bindings designate depends on little: on the interfaces and the
sub-components of the definition, and on the interfaces of other definitions. -/

namespace Definition

/-- The definitions have what the ends of bindings can designate in common. -/
structure SharesEnds (changed original : Definition) : Prop where
  interfaces : changed.interfaces = original.interfaces
  internalInterfaces : changed.internalInterfaces = original.internalInterfaces
  components : changed.components = original.components
  typeParameters : changed.typeParameters = original.typeParameters

/-- Of the bindings, only the ends matter from which they start. -/
theorem isBound_congr {changed original : Definition}
    (clients : changed.bindings.map (·.client) = original.bindings.map (·.client)) :
    changed.isBound = original.isBound := by
  have selected : ∀ (definition : Definition) (component interface : String),
      (definition.bindings.filter fun binding => binding.client.component == component &&
        binding.client.interface == interface).map (·.client.index) =
      ((definition.bindings.map (·.client)).filter fun client => client.component == component &&
        client.interface == interface).map (·.index) := by
    intro definition component interface
    rw [List.filter_map, List.map_map]
    rfl
  funext component interface
  unfold isBound
  rw [selected, selected, clients]

/-- A definition in one context looks to the ends of its bindings like another one in another
context: what they designate need not be the same, but offers the same interfaces. -/
structure Mirrors (changed : Definition) (after : Context) (original : Definition)
    (before : Context) : Prop where
  interfaces : changed.interfaces = original.interfaces
  internalInterfaces : changed.internalInterfaces = original.internalInterfaces
  components : changed.components.map (fun component => (component.name, component.span)) =
    original.components.map fun component => (component.name, component.span)
  designated : ∀ name,
    (changed.componentDefinition? name).map (fun id => (after.definition id).interfaces) =
      (original.componentDefinition? name).map fun id => (before.definition id).interfaces

namespace Mirrors

variable {changed original : Definition} {before after : Context}

theorem insideInterface? (mirrors : changed.Mirrors after original before) (name : String) :
    changed.insideInterface? name = original.insideInterface? name := by
  simp only [Definition.insideInterface?, internalInterface?, interface?, mirrors.interfaces,
    mirrors.internalInterfaces]

theorem isNone_component? (mirrors : changed.Mirrors after original before) (name : String) :
    (changed.component? name).isNone = (original.component? name).isNone := by
  have named : ∀ definition : Definition, (definition.component? name).isNone =
      !(definition.components.map fun component => (component.name, component.span)).any
        (·.1 == name) := by
    intro definition
    rw [component?, List.any_map, Bool.eq_iff_iff]
    simp
  rw [named, named, mirrors.components]

theorem endpointInterface (mirrors : changed.Mirrors after original before) (endpoint : Endpoint) :
    changed.endpointInterface after endpoint = original.endpointInterface before endpoint := by
  have designated := mirrors.designated endpoint.component
  unfold Definition.endpointInterface
  rw [mirrors.insideInterface?, mirrors.isNone_component?]
  cases left : changed.componentDefinition? endpoint.component <;>
    cases right : original.componentDefinition? endpoint.component <;>
    rw [left, right] at designated
  · exact nomatch designated
  · exact nomatch designated
  · simp only [interface?, Option.some.inj designated]

theorem expansion? (mirrors : changed.Mirrors after original before) {binding other : Binding}
    (client : binding.client = other.client) (server : binding.server = other.server) :
    changed.expansion? after binding = original.expansion? before other := by
  simp only [Definition.expansion?, client, server, mirrors.endpointInterface]

theorem unbound (mirrors : changed.Mirrors after original before)
    (clients : changed.bindings.map (·.client) = original.bindings.map (·.client)) :
    changed.unbound after = original.unbound before := by
  have bound := isBound_congr clients
  have inside : changed.insideInterfaces = original.insideInterfaces := by
    simp only [insideInterfaces, internalInterface?, mirrors.interfaces, mirrors.internalInterfaces]
  have overNames : ∀ (definition : Definition) (context : Context),
      definition.components.flatMap (definition.unboundOf context) =
        (definition.components.map fun component => (component.name, component.span)).flatMap
          fun part => (((definition.componentDefinition? part.1).map fun id =>
            (context.definition id).interfaces).getD []).filter (fun interface =>
              mustBeBound interface && !definition.isBound part.1 interface) |>.map
                fun interface => (part.1 ++ "." ++ interface.name, part.2) := by
    intro definition context
    rw [List.flatMap_map]
    refine congrArg (fun unbound => definition.components.flatMap unbound) (funext fun component => ?_)
    unfold unboundOf
    cases definition.componentDefinition? component.name <;> rfl
  rw [Definition.unbound, Definition.unbound, overNames, overNames, mirrors.components, unboundInside,
    unboundInside, inside, bound]
  simp only [mirrors.designated]

end Mirrors

end Definition

namespace Context

/-- The definitions have the same interfaces in both contexts. -/
def SharesInterfaces (after before : Context) : Prop :=
  ∀ id, (after.definition id).interfaces = (before.definition id).interfaces

end Context

namespace Definition.SharesEnds

variable {changed original : Definition} {before after : Context}

theorem mirrors (shares : changed.SharesEnds original) (interfaces : after.SharesInterfaces before) :
    changed.Mirrors after original before where
  interfaces := shares.interfaces
  internalInterfaces := shares.internalInterfaces
  components := by rw [shares.components]
  designated name := by
    simp only [componentDefinition?, component?, typeParameter?, shares.components,
      shares.typeParameters, interfaces _]

end Definition.SharesEnds

/-! ## Interfaces that are found -/

namespace Definition

variable {definition : Definition} {context : Context} {endpoint : Endpoint} {interface : Interface}

/-- An end designates an interface of the definition or of a sub-component. -/
theorem endpointInterface_eq_found_iff :
    definition.endpointInterface context endpoint = .found interface ↔
      (endpoint.isThis = true ∧ definition.insideInterface? endpoint.interface = some interface) ∨
        endpoint.isThis = false ∧ ∃ id, definition.componentDefinition? endpoint.component = some id ∧
          (context.definition id).interface? endpoint.interface = some interface := by
  unfold endpointInterface
  cases isThis : endpoint.isThis with
  | true => cases found : definition.insideInterface? endpoint.interface <;> simp
  | false =>
      cases found : definition.component? endpoint.component with
      | none => simp [componentDefinition?, found]
      | some component =>
          cases designated : definition.componentDefinition? endpoint.component with
          | none => simp
          | some id =>
              cases declared : (context.definition id).interface? endpoint.interface <;>
                simp [declared]

/-- Nothing can be said of an end at a sub-component that designates nothing. -/
theorem endpointInterface_eq_unresolved
    (unresolved : definition.endpointInterface context endpoint = .unresolved) :
    endpoint.isThis = false ∧ definition.componentDefinition? endpoint.component = none := by
  unfold endpointInterface at unresolved
  split at unresolved
  · split at unresolved <;> exact nomatch unresolved
  · rename_i outside
    split at unresolved
    · exact nomatch unresolved
    · split at unresolved
      · rename_i absent
        exact ⟨by simpa using outside, absent⟩
      · split at unresolved <;> exact nomatch unresolved

end Definition

/-! ## Ends of bindings that were checked -/

namespace Binding

variable {definition : Definition} {context : Context} {binding : Binding}
  {extends? : String → String → Bool} {castRequired : Bool}

/-- The interface at an end is known, unless nothing can be said of it. -/
def IsKnown (definition : Definition) (context : Context) (endpoint : Endpoint) : Prop :=
  definition.endpointInterface context endpoint = .unresolved ∨
    ∃ interface, definition.endpointInterface context endpoint = .found interface

theorem isKnown_of_lookup {endpoint : Endpoint} {result : Option Interface}
    (found : binding.lookup definition context endpoint = .ok result) :
    IsKnown definition context endpoint := by
  unfold lookup at found
  split at found
  · rename_i interface isFound
    exact .inr ⟨interface, isFound⟩
  · rename_i unresolved
    exact .inl unresolved
  · exact nomatch found
  · exact nomatch found

theorem check_congr {changed : Definition} {after : Context}
    (mirrors : changed.Mirrors after definition context) (named : changed.name = definition.name)
    {other : Binding} (client : other.client = binding.client) (server : other.server = binding.server)
    (span : other.span = binding.span) :
    other.check changed after extends? = binding.check definition context extends? := by
  simp only [check, lookup, mirrors.endpointInterface, named, client, server, span]

/-- A binding that is accepted has known ends, and interfaces at both are compatible. -/
structure Accepts (extends? : String → String → Bool) (definition : Definition)
    (context : Context) (binding : Binding) (castRequired : Bool) : Prop where
  client : IsKnown definition context binding.client
  server : IsKnown definition context binding.server
  compatible : ∀ client server, definition.endpointInterface context binding.client = .found client →
    definition.endpointInterface context binding.server = .found server →
    Compatibility.check ⟨binding.client.text, client, binding.client.index⟩
      ⟨binding.server.text, server, binding.server.index⟩ extends? binding.span = .ok castRequired

theorem accepts_of_check (accepted : binding.check definition context extends? = .ok castRequired) :
    Accepts extends? definition context binding castRequired := by
  unfold check at accepted
  split at accepted
  · exact nomatch accepted
  · exact nomatch accepted
  · exact nomatch accepted
  · rename_i client server clientFound serverFound
    refine ⟨isKnown_of_lookup clientFound, isKnown_of_lookup serverFound, fun left right isLeft isRight => ?_⟩
    unfold lookup at clientFound serverFound
    rw [isLeft] at clientFound
    rw [isRight] at serverFound
    cases clientFound
    cases serverFound
    exact accepted
  · rename_i client server notBoth clientFound serverFound
    refine ⟨isKnown_of_lookup clientFound, isKnown_of_lookup serverFound, fun left right isLeft isRight => ?_⟩
    unfold lookup at clientFound serverFound
    rw [isLeft] at clientFound
    rw [isRight] at serverFound
    cases clientFound
    cases serverFound
    exact absurd rfl (notBoth left right rfl)

theorem Accepts.shares {changed : Definition} {after : Context} {settled : Binding}
    (shares : changed.SharesEnds definition) (interfaces : after.SharesInterfaces context)
    (same : settled = { binding with castRequired })
    (accepts : Accepts extends? definition context binding castRequired) :
    Accepts extends? changed after settled settled.castRequired := by
  cases same
  refine ⟨?_, ?_, ?_⟩
  · simpa only [IsKnown, (shares.mirrors interfaces).endpointInterface] using accepts.client
  · simpa only [IsKnown, (shares.mirrors interfaces).endpointInterface] using accepts.server
  · simpa only [(shares.mirrors interfaces).endpointInterface] using accepts.compatible

end Binding

end Adl
