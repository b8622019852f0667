import Adl.Definition.Basic
import Adl.Exchange.Reference

namespace Adl

/-! The form in which definitions and their elements are handed to other tools. -/

def Role.json : Role → Json
  | .client => .string "client"
  | .server => .string "server"

/-- The number of elements of a collection; null where it is not known. -/
def Cardinality.json? : Cardinality → Option Json
  | .singleton => none
  | .collection none => some .null
  | .collection (some size) => some (.ofNat size.toNat)

def Interface.json (interface : Interface) : Json :=
  .ofFields (
    [ ("name", some (.string interface.name)),
      ("role", some interface.role.json),
      ("sig", some (.string interface.signature)),
      ("coll", interface.cardinality.json?),
      ("optional", Json.ofFlag? interface.isOptional),
      ("span", interface.span.json?) ] ++
    interface.annotations.jsonFields ++
    [ ("delegate", interface.delegate.map Json.string),
      ("controller", Json.ofFlag? interface.isController) ])

def Component.json (component : Component) : Json :=
  .ofFields (
    [ ("name", some (.string component.name)),
      ("def", component.definition.map Reference.json),
      ("tparam", component.typeParameter.map Json.string),
      ("span", component.span.json?) ] ++
    component.annotations.jsonFields ++
    [ ("resolved", component.resolved.map Resolved.json),
      ("lifecycle", Json.ofFlag? component.hasLifeCycleController) ])

def Endpoint.json (endpoint : Endpoint) : Json :=
  .array ([.string endpoint.component, .string endpoint.interface] ++
    (endpoint.index.map fun index => Json.ofNat index.toNat).toList)

def Binding.json (binding : Binding) : Json :=
  .ofFields (
    [ ("from", some binding.client.json),
      ("to", some binding.server.json),
      ("span", binding.span.json?) ] ++
    binding.annotations.jsonFields ++
    [("cast", Json.ofFlag? binding.castRequired)])

def Source.json (source : Source) : Json :=
  .ofFields (
    [("path", some (.string source.path)), ("span", source.span.json?)] ++
    source.annotations.jsonFields)

def ControllerInterface.json (interface : ControllerInterface) : Json :=
  .array [.string interface.name, .bool interface.isInternal]

def Controller.json (controller : Controller) : Json :=
  .ofFields
    [ ("interfaces", Json.ofItems? ControllerInterface.json controller.interfaces),
      ("sources", Json.ofItems? Source.json controller.sources),
      ("span", controller.span.json?) ]

def Attribute.json (declared : Attribute) : Json :=
  .ofFields (
    [ ("name", some (.string declared.name)),
      ("type", some (.string declared.typeName)),
      ("value", declared.value.map Value.json),
      ("span", declared.span.json?) ] ++
    declared.annotations.jsonFields)

def Import.json (declaration : Import) : Json :=
  .ofFields
    [ ("package", some (.string declaration.package)),
      ("simple", some (.string declaration.simpleName)),
      ("span", declaration.span.json?) ]

def FormalParameter.json (parameter : FormalParameter) : Json :=
  .ofFields [("name", some (.string parameter.name)), ("span", parameter.span.json?)]

def FormalTypeParameter.json (parameter : FormalTypeParameter) : Json :=
  .ofFields
    [ ("name", some (.string parameter.name)),
      ("conforms", parameter.conformsTo.map Reference.json),
      ("span", parameter.span.json?) ]

/-- The decorations that say something. -/
def Decorations.json? (decorations : Decorations) : Option Json :=
  if decorations = .none then
    Option.none
  else
    some (.ofFields
      [ ("extends_merged", Json.ofFlag? decorations.extendsMerged),
        ("singleton", Json.ofFlag? decorations.singleton),
        ("template_of", decorations.templateOf.map Json.string),
        ("partial", Json.ofFlag? decorations.partiallyInstantiated),
        ("substituted_from", decorations.substitutedFrom.map Json.string),
        ("shared", Json.ofItems? Json.string decorations.sharedImplementations) ])

/-- The names of the members of a set. -/
def MemberSet.names {α : Type} [Member α] (members : MemberSet α) : List String :=
  members.toList.map Member.name

def Definition.json (definition : Definition) : Json :=
  .ofFields (
    [ ("name", some (.string definition.name)),
      ("kind", some (.string definition.kind.keyword)),
      ("span", definition.span.json?),
      ("caps", Json.ofItems? Json.string definition.capabilities.names),
      ("abstract", Json.ofFlag? definition.isAbstract),
      ("imports", Json.ofItems? Import.json definition.imports),
      ("extends", Json.ofItems? Reference.json definition.parents),
      ("params", Json.ofItems? FormalParameter.json definition.parameters),
      ("tparams", Json.ofItems? FormalTypeParameter.json definition.typeParameters),
      ("interfaces", Json.ofItems? Interface.json definition.interfaces),
      ("internals", Json.ofItems? Interface.json definition.internalInterfaces),
      ("attributes", Json.ofItems? Attribute.json definition.attributes),
      ("components", Json.ofItems? Component.json definition.components),
      ("bindings", Json.ofItems? Binding.json definition.bindings),
      ("sources", Json.ofItems? Source.json definition.sources),
      ("controllers", Json.ofItems? Controller.json definition.controllers) ] ++
    definition.annotations.jsonFields ++
    [("decorations", definition.decorations.json?)])

end Adl
