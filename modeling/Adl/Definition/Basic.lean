import Adl.Definition.Component
import Adl.Definition.Controller
import Adl.Definition.Interface

namespace Adl

/-! Definitions of components. What a definition may hold is said by its
capabilities, and its kind is read off them. -/

structure Attribute where
  name : String
  typeName : String
  value : Option Value
  span : Span
  annotations : Annotations

/-- What stages of loading record about a definition. -/
structure Decorations where
  extendsMerged : Bool
  singleton : Bool
  /-- The generic definition that this one is an instance of. -/
  templateOf : Option String
  /-- Whether type parameters are left open. -/
  partiallyInstantiated : Bool
  /-- The definition whose parameters were replaced to obtain this one. -/
  substitutedFrom : Option String
  sharedImplementations : List String
deriving DecidableEq, Repr

def Decorations.none : Decorations :=
  ⟨false, false, .none, false, .none, []⟩

inductive DefinitionKind where
  | type
  | primitive
  | composite
deriving DecidableEq, Repr

namespace DefinitionKind

def keyword : DefinitionKind → String
  | .type => "type"
  | .primitive => "primitive"
  | .composite => "composite"

def capabilities : DefinitionKind → Capabilities
  | .type => .ofList [.interfaces]
  | .primitive => .ofList [.interfaces, .implementation, .attributes]
  | .composite => .ofList [.interfaces, .components, .bindings]

/-- Sub-components make a composite, else implementation makes a primitive. -/
def ofCapabilities (capabilities : Capabilities) : DefinitionKind :=
  if capabilities.contains .components then .composite
  else if capabilities.contains .implementation then .primitive
  else .type

theorem ofCapabilities_capabilities (kind : DefinitionKind) :
    ofCapabilities kind.capabilities = kind := by
  cases kind <;> decide

end DefinitionKind

structure Definition where
  name : String
  span : Span
  capabilities : Capabilities
  isAbstract : Bool
  imports : List Import
  parents : List Reference
  parameters : List FormalParameter
  typeParameters : List FormalTypeParameter
  interfaces : List Interface
  internalInterfaces : List Interface
  attributes : List Attribute
  components : List Component
  bindings : List Binding
  sources : List Source
  controllers : List Controller
  annotations : Annotations
  decorations : Decorations

namespace Definition

/-- The definition that has these capabilities and holds nothing. -/
def bare (name : String) (capabilities : Capabilities) : Definition :=
  { name
    span := .generated
    capabilities
    isAbstract := false
    imports := []
    parents := []
    parameters := []
    typeParameters := []
    interfaces := []
    internalInterfaces := []
    attributes := []
    components := []
    bindings := []
    sources := []
    controllers := []
    annotations := .none
    decorations := .none }

def ofKind (name : String) (kind : DefinitionKind) : Definition :=
  bare name kind.capabilities

instance : Inhabited Definition := ⟨bare "" .empty⟩

def has (definition : Definition) (capability : Capability) : Bool :=
  definition.capabilities.contains capability

def kind (definition : Definition) : DefinitionKind :=
  .ofCapabilities definition.capabilities

@[simp] theorem kind_ofKind (name : String) (kind : DefinitionKind) :
    (ofKind name kind).kind = kind :=
  DefinitionKind.ofCapabilities_capabilities kind

def isType (definition : Definition) : Bool :=
  definition.kind == .type

def isPrimitive (definition : Definition) : Bool :=
  definition.kind == .primitive

def isComposite (definition : Definition) : Bool :=
  definition.kind == .composite

def isGeneric (definition : Definition) : Bool :=
  !definition.typeParameters.isEmpty

/-! The first element of a name, in each of the lists. -/

def interface? (definition : Definition) (name : String) : Option Interface :=
  definition.interfaces.find? (·.name == name)

def internalInterface? (definition : Definition) (name : String) : Option Interface :=
  definition.internalInterfaces.find? (·.name == name)

def component? (definition : Definition) (name : String) : Option Component :=
  definition.components.find? (·.name == name)

def attribute? (definition : Definition) (name : String) : Option Attribute :=
  definition.attributes.find? (·.name == name)

def hasParameter (definition : Definition) (name : String) : Bool :=
  definition.parameters.any (·.name == name)

def typeParameter? (definition : Definition) (name : String) :
    Option FormalTypeParameter :=
  definition.typeParameters.find? (·.name == name)

def hasTypeParameter (definition : Definition) (name : String) : Bool :=
  (definition.typeParameter? name).isSome

/-- The sub-components that designate a definition of the arena. -/
def resolvedComponents (definition : Definition) :
    List (Component × DefinitionId) :=
  definition.components.filterMap fun component =>
    component.resolvedId?.map (component, ·)

def gain (definition : Definition) (capability : Capability) : Definition :=
  { definition with capabilities := definition.capabilities.insert capability }

def addAttribute (definition : Definition) (name typeName : String)
    (value : Option Value) : Definition :=
  let definition := definition.gain .attributes
  { definition with
    attributes := definition.attributes ++ [⟨name, typeName, value, .generated, .none⟩] }

end Definition

end Adl
