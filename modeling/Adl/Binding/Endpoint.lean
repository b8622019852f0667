import Adl.Loading.Context

namespace Adl

/-! The interfaces that the ends of bindings designate. -/

inductive EndpointInterface where
  | found (interface : Interface)
  /-- The sub-component designates no definition, so nothing can be said. -/
  | unresolved
  | unknownComponent
  | unknownInterface

namespace Definition

/-- The definition of a sub-component; that of a placeholder is the type to which its
type parameter conforms. -/
def componentDefinition? (definition : Definition) (name : String) :
    Option DefinitionId := do
  let component ← definition.component? name
  component.resolvedId?.or do
    let parameter ← definition.typeParameter? (← component.typeParameter)
    (← parameter.conformsTo).resolvedId?

/-- An interface of the composite itself, seen from inside. -/
def insideInterface? (definition : Definition) (name : String) : Option Interface :=
  (definition.internalInterface? name).or
    ((definition.interface? name).map Interface.dual)

def endpointInterface (definition : Definition) (context : Context)
    (endpoint : Endpoint) : EndpointInterface :=
  if endpoint.isThis then
    match definition.insideInterface? endpoint.interface with
    | some interface => .found interface
    | none => .unknownInterface
  else if (definition.component? endpoint.component).isNone then
    .unknownComponent
  else
    match definition.componentDefinition? endpoint.component with
    | none => .unresolved
    | some id =>
        match (context.definition id).interface? endpoint.interface with
        | some interface => .found interface
        | none => .unknownInterface

end Definition

end Adl
