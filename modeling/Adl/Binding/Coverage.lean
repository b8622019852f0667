import Adl.Binding.Endpoint

namespace Adl

/-! Mandatory client interfaces that no binding serves. -/

namespace Definition

/-- Whether bindings start from every element of an interface. -/
def isBound (definition : Definition) (component : String) (interface : Interface) :
    Bool :=
  let indices := (definition.bindings.filter fun binding =>
    binding.client.component == component &&
      binding.client.interface == interface.name).map (·.client.index)
  if indices.isEmpty then
    false
  else if !interface.isCollection || indices.contains none then
    true
  else
    match interface.elementCount? with
    | some size =>
        Nat.all size fun index _ => indices.contains (some (UInt32.ofNat index))
    | none => true

def mustBeBound (interface : Interface) : Bool :=
  interface.isClient && interface.isMandatory && !interface.isController

/-- The interfaces of a composite seen from inside: the internal ones, and the duals
of the external ones that have none. -/
def insideInterfaces (definition : Definition) : List Interface :=
  definition.internalInterfaces ++
    (definition.interfaces.filter fun interface =>
      (definition.internalInterface? interface.name).isNone).map Interface.dual

def unboundInside (definition : Definition) : List (String × Span) :=
  (definition.insideInterfaces.filter fun interface =>
    mustBeBound interface && !definition.isBound Endpoint.selfName interface).map
      fun interface => (Endpoint.selfName ++ "." ++ interface.name, interface.span)

def unboundOf (definition : Definition) (context : Context) (component : Component) :
    List (String × Span) :=
  match definition.componentDefinition? component.name with
  | none => []
  | some id =>
      ((context.definition id).interfaces.filter fun interface =>
        mustBeBound interface && !definition.isBound component.name interface).map
          fun interface => (component.name ++ "." ++ interface.name, component.span)

/-- Every unbound end with the place to report it at. -/
def unbound (definition : Definition) (context : Context) : List (String × Span) :=
  definition.unboundInside ++ definition.components.flatMap (definition.unboundOf context)

def unboundReport (name : String) (first : String × Span)
    (others : List (String × Span)) : Diagnostic :=
  others.foldl
    (fun diagnostic (endpoint, span) =>
      diagnostic.withLabel span ("'" ++ endpoint ++ "' is not bound either"))
    (.error .unboundInterface first.2
      ("client interface '" ++ first.1 ++ "' of '" ++ name ++ "' is not bound"))

end Definition

/-- Fails on a concrete composite that leaves a mandatory client interface unbound. -/
def requireBound (name : String) (id : DefinitionId) : Loading Unit := do
  let definition ← Loading.definition id
  if definition.isComposite && !definition.isAbstract then
    match definition.unbound (← Loading.context) with
    | [] => return
    | first :: others =>
        Step.fail (.fatal (Definition.unboundReport name first others))

end Adl
