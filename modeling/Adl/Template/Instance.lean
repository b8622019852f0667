import Adl.Annotation.Processing
import Adl.Reference.Hoisted

namespace Adl

/-! Instances of generic definitions. A type parameter is bound to a definition, or to
a type parameter of the definition that holds the reference; in the second case the
instance stays generic. -/

inductive TypeBinding where
  | definition (id : DefinitionId)
  | parameter (name : String)
deriving DecidableEq, Repr

abbrev TypeBindings := Table TypeBinding

structure InstanceRequest where
  generic : DefinitionId
  bindings : TypeBindings

namespace TypeBinding

def name (context : Context) : TypeBinding → String
  | .definition id => (context.definition id).name
  | .parameter name => name

def isDefinition : TypeBinding → Bool
  | .definition _ => true
  | .parameter _ => false

end TypeBinding

namespace InstanceRequest

def isPartial (request : InstanceRequest) : Bool :=
  request.bindings.values.any fun binding => !binding.isDefinition

def instanceName (request : InstanceRequest) (context : Context) : String :=
  (context.definition request.generic).name ++ "<" ++
    ", ".intercalate (request.bindings.values.map (·.name context)) ++ ">"

end InstanceRequest

/-! ## Type parameters in references -/

namespace Reference

variable (context : Context) (bindings : TypeBindings)

/-- What takes the place of a type parameter in a type argument. -/
def boundValue (parameter : String) (span : Span) : TypeArgumentValue :=
  match bindings.find? parameter with
  | some (.definition id) =>
      .definition { ofName (context.definition id).name with span }
  | some (.parameter renamed) => .parameter renamed
  | none => .parameter parameter

mutual
def instantiate : Reference → Reference
  | ⟨name, arguments, typeArguments, span, resolved⟩ =>
      ⟨name, arguments, instantiateTypeArguments typeArguments, span, resolved⟩

def instantiateTypeArguments : List TypeArgument → List TypeArgument
  | [] => []
  | ⟨name, .definition reference, span⟩ :: rest =>
      ⟨name, .definition (instantiate reference), span⟩ :: instantiateTypeArguments rest
  | ⟨name, .parameter parameter, span⟩ :: rest =>
      ⟨name, boundValue context bindings parameter span, span⟩ ::
        instantiateTypeArguments rest
end

/-! Whether a bound type parameter occurs among the type arguments, at any depth. -/

mutual
def usesTypes : Reference → Bool
  | ⟨_, _, typeArguments, _, _⟩ => typeArgumentsUseTypes typeArguments

def typeArgumentsUseTypes : List TypeArgument → Bool
  | [] => false
  | ⟨_, .definition reference, _⟩ :: rest =>
      usesTypes reference || typeArgumentsUseTypes rest
  | ⟨_, .parameter parameter, _⟩ :: rest =>
      bindings.contains parameter || typeArgumentsUseTypes rest
end

end Reference

/-! ## The instance -/

/-- Puts a definition in the place of a type parameter. -/
def Component.fill (component : Component) (name : String) (id : DefinitionId) :
    Component :=
  let resolved : Resolved := ⟨name, some id⟩
  { component with
    definition := some { Reference.ofName name with
      span := component.span
      resolved := some resolved }
    typeParameter := none
    resolved := some resolved }

def Component.instantiate (context : Context) (bindings : TypeBindings)
    (component : Component) : Component :=
  match component.typeParameter with
  | some parameter =>
      match bindings.find? parameter with
      | some (.definition id) => component.fill (context.definition id).name id
      | some (.parameter renamed) => { component with typeParameter := some renamed }
      | none => component
  | none =>
      match component.definition with
      | some reference =>
          if reference.usesTypes bindings then
            { component with
              definition := some (reference.instantiate context bindings).clearResolution
              resolved := none }
          else
            component
      | none => component

/-- The type parameters that the instance keeps open, under their new names. -/
def openTypeParameters (bindings : TypeBindings) (parameters : List FormalTypeParameter) :
    List FormalTypeParameter :=
  parameters.filterMap fun parameter =>
    match bindings.find? parameter.name with
    | some (.parameter renamed) => some { parameter with name := renamed }
    | _ => none

/-- The generic definition with its type parameters replaced. -/
def InstanceRequest.bare (request : InstanceRequest) (context : Context) (name : String) :
    Definition :=
  let generic := context.definition request.generic
  let typeParameters := openTypeParameters request.bindings generic.typeParameters
  { generic with
    name
    typeParameters
    capabilities :=
      if typeParameters.isEmpty then generic.capabilities.erase .formalTypeParameters
      else generic.capabilities
    components := generic.components.map (·.instantiate context request.bindings)
    decorations := { generic.decorations with
      templateOf := some generic.name
      partiallyInstantiated := !typeParameters.isEmpty } }

/-! ## Parameters of what is bound

An instance takes over the parameters of the definitions that it is made of, so that
a reference to it can give them values. -/

/-- Adds a parameter, unless the name is taken. -/
def Definition.ensureParameter (definition : Definition) (name : String) : Definition :=
  if definition.hasParameter name then
    definition
  else
    let definition := definition.gain .formalParameters
    { definition with parameters := definition.parameters ++ [⟨name, .generated⟩] }

def forwardArgument (parameter hoisted : String) (component : Component) :
    Component :=
  { component with
    definition := component.definition.map fun reference =>
      { reference with
        arguments := reference.arguments ++
          [⟨some parameter, .reference hoisted, .generated⟩] } }

/-- Passes a new parameter of the instance on to a parameter of a sub-component. -/
def exposeParameter (name : String) (index : Nat) (typeParameter : String)
    (bound : String) (definition : Definition) (parameter : String) :
    Loading Definition := do
  let hoisted := Hoisted.name typeParameter parameter
  match (← Loading.context).inferredType? bound parameter with
  | some type => let _ ← Loading.infer name hoisted type
  | none => pure ()
  let definition := definition.ensureParameter hoisted
  return { definition with
    components := definition.components.modify index (forwardArgument parameter hoisted) }

def exposeComponent (name : String) (bindings : TypeBindings)
    (definition : Definition) (placeholder : Component × Nat) : Loading Definition := do
  match placeholder.1.typeParameter with
  | none => return definition
  | some parameter =>
      match bindings.find? parameter with
      | some (.definition id) => do
          let bound ← Loading.definition id
          (bound.parameters.map (·.name)).foldlM
            (exposeParameter name placeholder.2 parameter bound.name) definition
      | _ => return definition

/-! ## Layers -/

/-- How an instance is made: each layer completes what the layers inside made. -/
inductive TemplateLayer where
  | parameters
  | annotations
deriving DecidableEq, Repr

namespace InstanceRequest

def exposeParameters (request : InstanceRequest) (name : String)
    (definition : Definition) : Loading Definition := do
  let generic ← Loading.definition request.generic
  generic.components.zipIdx.foldlM (exposeComponent name request.bindings) definition

/-- The sub-components of the generic definition that are filled by a definition. -/
def filled (request : InstanceRequest) (generic : Definition) : List Nat :=
  (List.range generic.components.length).filter fun index =>
    match generic.components[index]?.bind (·.typeParameter) with
    | some parameter => (request.bindings.find? parameter).any (·.isDefinition)
    | none => false

def processAnnotations (request : InstanceRequest) (registry : AnnotationRegistry)
    (definition : Definition) : Loading Definition := do
  let generic ← Loading.definition request.generic
  let definition ← registry.processSubComponents .onTemplateSubComponent definition
    (request.filled generic)
  registry.processDefinition .afterTemplateInstantiate definition

/-- Makes the instance by the given layers, the innermost first. -/
def build (request : InstanceRequest) (registry : AnnotationRegistry)
    (layers : List TemplateLayer) (name : String) : Loading Definition := do
  let bare := request.bare (← Loading.context) name
  layers.foldlM
    (fun definition layer =>
      match layer with
      | .parameters => request.exposeParameters name definition
      | .annotations => request.processAnnotations registry definition)
    bare

def layers : List TemplateLayer :=
  [.parameters, .annotations]

/-- Loads the instance, after making and registering it where it is not known yet. -/
def load (request : InstanceRequest) (registry : AnnotationRegistry)
    (load : String → Loading DefinitionId) : Loading DefinitionId := do
  let context ← Loading.context
  let name := request.instanceName context
  if !context.isKnown name then
    let definition ← request.build registry layers name
    let _ ← Loading.register name definition
  load name

end InstanceRequest

end Adl
