import Adl.Proofs.Bundle.Reading

namespace Adl

/-! What a bundle keeps of a definition: everything but the positions of resolved
definitions and the typed annotations. And how many arrays and maps its reader opens
inside each other to get it back, where the map around an alternative is not one. -/

/-! ## What is kept -/

def Resolved.stored (resolved : Resolved) : Resolved :=
  { resolved with id := none }

namespace Reference

mutual
def stored : Reference → Reference
  | ⟨name, arguments, typeArguments, span, resolved⟩ =>
      ⟨name, arguments, storedTypeArguments typeArguments, span, resolved.map Resolved.stored⟩

def storedTypeArguments : List TypeArgument → List TypeArgument
  | [] => []
  | ⟨name, value, span⟩ :: rest => ⟨name, storedValue value, span⟩ :: storedTypeArguments rest

def storedValue : TypeArgumentValue → TypeArgumentValue
  | .definition reference => .definition reference.stored
  | .parameter name => .parameter name
end

end Reference

def FormalTypeParameter.stored (parameter : FormalTypeParameter) : FormalTypeParameter :=
  { parameter with conformsTo := parameter.conformsTo.map Reference.stored }

def Attribute.withoutTyped (declared : Attribute) : Attribute :=
  { declared with annotations := declared.annotations.withoutTyped }

def Component.stored (component : Component) : Component :=
  { component with
    definition := component.definition.map Reference.stored
    annotations := component.annotations.withoutTyped
    resolved := component.resolved.map Resolved.stored }

def Binding.withoutTyped (binding : Binding) : Binding :=
  { binding with annotations := binding.annotations.withoutTyped }

def Definition.stored (definition : Definition) : Definition :=
  { definition with
    parents := definition.parents.map Reference.stored
    typeParameters := definition.typeParameters.map FormalTypeParameter.stored
    interfaces := definition.interfaces.map Interface.withoutTyped
    internalInterfaces := definition.internalInterfaces.map Interface.withoutTyped
    attributes := definition.attributes.map Attribute.withoutTyped
    components := definition.components.map Component.stored
    bindings := definition.bindings.map Binding.withoutTyped
    sources := definition.sources.map Source.withoutTyped
    controllers := definition.controllers.map Controller.withoutTyped
    annotations := definition.annotations.withoutTyped }

/-! ## Levels -/

open Packed (levelsAround levelsOfOption)

def Span.levels (_ : Span) : Nat :=
  levelsAround []

mutual
def AnnotationValue.levels : AnnotationValue → Nat
  | .nested node => node.levels
  | .array items => levelsAround (AnnotationValue.levelsOfItems items)
  | _ => 0

def AnnotationValue.levelsOfItems : List AnnotationValue → List Nat
  | [] => []
  | item :: rest => item.levels :: AnnotationValue.levelsOfItems rest

def AnnotationArgument.levelsOfItems : List AnnotationArgument → List Nat
  | [] => []
  | ⟨_, value⟩ :: rest => levelsAround [value.levels] :: AnnotationArgument.levelsOfItems rest

def AnnotationNode.levels : AnnotationNode → Nat
  | ⟨_, arguments, span⟩ =>
      levelsAround [levelsAround (AnnotationArgument.levelsOfItems arguments), span.levels]
end

def Annotations.levels (annotations : Annotations) : Nat :=
  levelsAround [levelsAround (annotations.nodes.map AnnotationNode.levels)]

def Resolved.levels (_ : Resolved) : Nat :=
  levelsAround []

def Argument.levels (argument : Argument) : Nat :=
  levelsAround [argument.span.levels]

namespace Reference

mutual
def levels : Reference → Nat
  | ⟨_, arguments, typeArguments, span, resolved⟩ =>
      levelsAround
        [ levelsAround (arguments.map Argument.levels),
          levelsAround (levelsOfTypeArguments typeArguments),
          span.levels,
          levelsOfOption Resolved.levels resolved ]

def levelsOfTypeArguments : List TypeArgument → List Nat
  | [] => []
  | ⟨_, value, span⟩ :: rest =>
      levelsAround [levelsOfValue value, span.levels] :: levelsOfTypeArguments rest

def levelsOfValue : TypeArgumentValue → Nat
  | .definition reference => reference.levels
  | .parameter _ => 0
end

end Reference

def FormalParameter.levels (parameter : FormalParameter) : Nat :=
  levelsAround [parameter.span.levels]

def FormalTypeParameter.levels (parameter : FormalTypeParameter) : Nat :=
  levelsAround [levelsOfOption Reference.levels parameter.conformsTo, parameter.span.levels]

def Import.levels (declaration : Import) : Nat :=
  levelsAround [declaration.span.levels]

def Interface.levels (interface : Interface) : Nat :=
  levelsAround [interface.span.levels, interface.annotations.levels]

def Attribute.levels (declared : Attribute) : Nat :=
  levelsAround [declared.span.levels, declared.annotations.levels]

def Component.levels (component : Component) : Nat :=
  levelsAround
    [ levelsOfOption Reference.levels component.definition,
      component.span.levels,
      component.annotations.levels,
      levelsOfOption Resolved.levels component.resolved ]

def Endpoint.levels (_ : Endpoint) : Nat :=
  levelsAround []

def Binding.levels (binding : Binding) : Nat :=
  levelsAround
    [ binding.client.levels, binding.server.levels, binding.span.levels,
      binding.annotations.levels ]

def Source.levels (source : Source) : Nat :=
  levelsAround [source.span.levels, source.annotations.levels]

def ControllerInterface.levels (_ : ControllerInterface) : Nat :=
  levelsAround []

def Controller.levels (controller : Controller) : Nat :=
  levelsAround
    [ levelsAround (controller.interfaces.map ControllerInterface.levels),
      levelsAround (controller.sources.map Source.levels),
      controller.span.levels ]

def Decorations.levels (decorations : Decorations) : Nat :=
  levelsAround [levelsAround (decorations.sharedImplementations.map fun _ => 0)]

def Definition.levels (definition : Definition) : Nat :=
  levelsAround
    [ definition.span.levels,
      levelsAround (definition.imports.map Import.levels),
      levelsAround (definition.parents.map Reference.levels),
      levelsAround (definition.parameters.map FormalParameter.levels),
      levelsAround (definition.typeParameters.map FormalTypeParameter.levels),
      levelsAround (definition.interfaces.map Interface.levels),
      levelsAround (definition.internalInterfaces.map Interface.levels),
      levelsAround (definition.attributes.map Attribute.levels),
      levelsAround (definition.components.map Component.levels),
      levelsAround (definition.bindings.map Binding.levels),
      levelsAround (definition.sources.map Source.levels),
      levelsAround (definition.controllers.map Controller.levels),
      definition.annotations.levels,
      definition.decorations.levels ]

/-- The levels of a whole bundle. -/
def Bundle.levels (definitions : List Definition) : Nat :=
  levelsAround (definitions.map Definition.levels)

end Adl
