import Adl.Definition.Annotation
import Adl.Definition.Reference

namespace Adl

/-! What a composite holds: sub-components, and bindings between interfaces of
sub-components or of the composite itself. -/

/-- A sub-component. It names a definition, or a type parameter whose argument is
put in its place. -/
structure Component where
  name : String
  definition : Option Reference
  typeParameter : Option String
  span : Span
  annotations : Annotations
  resolved : Option Resolved
  hasLifeCycleController : Bool

namespace Component

def resolvedId? (component : Component) : Option DefinitionId :=
  component.resolved.bind (·.id)

def isPlaceholder (component : Component) : Bool :=
  component.definition.isNone && component.typeParameter.isSome

end Component

/-- One end of a binding. -/
structure Endpoint where
  component : String
  interface : String
  index : Option UInt32
deriving DecidableEq, Repr

namespace Endpoint

/-- The name by which a composite refers to itself. -/
def selfName : String := "this"

def isThis (endpoint : Endpoint) : Bool :=
  endpoint.component == selfName

def text (endpoint : Endpoint) : String :=
  let base := endpoint.component ++ "." ++ endpoint.interface
  match endpoint.index with
  | some index => base ++ "[" ++ toString index ++ "]"
  | none => base

def atIndex (endpoint : Endpoint) (index : UInt32) : Endpoint :=
  { endpoint with index := some index }

end Endpoint

/-- A binding from a client interface to a server interface. -/
structure Binding where
  client : Endpoint
  server : Endpoint
  span : Span
  annotations : Annotations
  castRequired : Bool

namespace Binding

/-- The client end as text: no two bindings of a composite should share it. -/
def id (binding : Binding) : String :=
  binding.client.text

def text (binding : Binding) : String :=
  binding.client.text ++ " to " ++ binding.server.text

end Binding

end Adl
