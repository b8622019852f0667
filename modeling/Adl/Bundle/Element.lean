import Adl.Bundle.Annotation
import Adl.Bundle.Reference
import Adl.Definition.Basic

namespace Adl

/-! The packed form of what a definition holds. -/

namespace Role

def packed : Role → Packed
  | .client => .ofString "Client"
  | .server => .ofString "Server"

def ofPacked? (packed : Packed) : Option Role := do
  match ← packed.unit? ["Client", "Server"] with
  | "Client" => some .client
  | _ => some .server

end Role

namespace Contingency

def packed : Contingency → Packed
  | .mandatory => .ofString "Mandatory"
  | .optional => .ofString "Optional"

def ofPacked? (packed : Packed) : Option Contingency := do
  match ← packed.unit? ["Mandatory", "Optional"] with
  | "Mandatory" => some .mandatory
  | _ => some .optional

end Contingency

/-- A size or an index, where there is one. -/
def packedCount (count : Option UInt32) : Packed :=
  .ofOption (fun count => .unsigned count.toUInt64) count

namespace Cardinality

def packed : Cardinality → Packed
  | .singleton => .ofString "Singleton"
  | .collection size => .ofVariant "Collection" (packedCount size)

def ofPacked? (packed : Packed) : Option Cardinality := do
  match ← packed.variant? ["Singleton", "Collection"] with
  | ("Singleton", none) | ("Singleton", some .null) => some .singleton
  | ("Collection", some contents) =>
      return .collection (← contents.option? Packed.uint32?)
  | _ => none

end Cardinality

namespace Interface

def packed (interface : Interface) : Packed :=
  .ofFields
    [ ("name", .ofString interface.name),
      ("role", interface.role.packed),
      ("signature", .ofString interface.signature),
      ("cardinality", interface.cardinality.packed),
      ("contingency", interface.contingency.packed),
      ("span", interface.span.packed),
      ("annotations", interface.annotations.packed),
      ("delegated_interface", .ofOption .ofString interface.delegate),
      ("controller_interface", .bool interface.isController) ]

def fieldNames : List String :=
  ["name", "role", "signature", "cardinality", "contingency", "span", "annotations",
    "delegated_interface", "controller_interface"]

def ofPacked? : Nat → Packed → Option Interface
  | 0, _ => none
  | room + 1, packed => do
      let record ← Record.ofPacked? fieldNames room packed
      let name ← record.field? "name" Packed.string?
      let role ← record.field? "role" Role.ofPacked?
      let signature ← record.field? "signature" Packed.string?
      let cardinality ← record.field? "cardinality" Cardinality.ofPacked?
      let contingency ← record.field? "contingency" Contingency.ofPacked?
      let span ← record.field? "span" (Span.ofPacked? room)
      let annotations ← record.field? "annotations" (Annotations.ofPacked? room)
      let delegate ← record.optional? "delegated_interface" Packed.string?
      let isController ← record.field? "controller_interface" Packed.bool?
      return {
        name, role, signature, cardinality, contingency, span, annotations, delegate,
        isController }

end Interface

namespace Attribute

def packed (declared : Attribute) : Packed :=
  .ofFields
    [ ("name", .ofString declared.name),
      ("type_name", .ofString declared.typeName),
      ("value", .ofOption Value.packed declared.value),
      ("span", declared.span.packed),
      ("annotations", declared.annotations.packed) ]

def fieldNames : List String := ["name", "type_name", "value", "span", "annotations"]

def ofPacked? : Nat → Packed → Option Attribute
  | 0, _ => none
  | room + 1, packed => do
      let record ← Record.ofPacked? fieldNames room packed
      let name ← record.field? "name" Packed.string?
      let typeName ← record.field? "type_name" Packed.string?
      let value ← record.optional? "value" Value.ofPacked?
      let span ← record.field? "span" (Span.ofPacked? room)
      let annotations ← record.field? "annotations" (Annotations.ofPacked? room)
      return { name, typeName, value, span, annotations }

end Attribute

namespace Component

def packed (component : Component) : Packed :=
  .ofFields
    [ ("name", .ofString component.name),
      ("definition", .ofOption Reference.packed component.definition),
      ("type_parameter", .ofOption .ofString component.typeParameter),
      ("span", component.span.packed),
      ("annotations", component.annotations.packed),
      ("resolved", .ofOption Resolved.packed component.resolved),
      ("has_lifecycle_controller", .bool component.hasLifeCycleController) ]

def fieldNames : List String :=
  ["name", "definition", "type_parameter", "span", "annotations", "resolved",
    "has_lifecycle_controller"]

def ofPacked? : Nat → Packed → Option Component
  | 0, _ => none
  | room + 1, packed => do
      let record ← Record.ofPacked? fieldNames room packed
      let name ← record.field? "name" Packed.string?
      let definition ← record.optional? "definition" (Reference.ofPacked? room)
      let typeParameter ← record.optional? "type_parameter" Packed.string?
      let span ← record.field? "span" (Span.ofPacked? room)
      let annotations ← record.field? "annotations" (Annotations.ofPacked? room)
      let resolved ← record.optional? "resolved" (Resolved.ofPacked? room)
      let hasLifeCycleController ← record.field? "has_lifecycle_controller" Packed.bool?
      return {
        name, definition, typeParameter, span, annotations, resolved,
        hasLifeCycleController }

end Component

namespace Endpoint

def packed (endpoint : Endpoint) : Packed :=
  .ofFields
    [ ("component", .ofString endpoint.component),
      ("interface", .ofString endpoint.interface),
      ("index", packedCount endpoint.index) ]

def ofPacked? : Nat → Packed → Option Endpoint
  | 0, _ => none
  | room + 1, packed => do
      let record ← Record.ofPacked? ["component", "interface", "index"] room packed
      let component ← record.field? "component" Packed.string?
      let interface ← record.field? "interface" Packed.string?
      let index ← record.optional? "index" Packed.uint32?
      return { component, interface, index }

end Endpoint

namespace Binding

def packed (binding : Binding) : Packed :=
  .ofFields
    [ ("from", binding.client.packed),
      ("to", binding.server.packed),
      ("span", binding.span.packed),
      ("annotations", binding.annotations.packed),
      ("cast_required", .bool binding.castRequired) ]

def fieldNames : List String := ["from", "to", "span", "annotations", "cast_required"]

def ofPacked? : Nat → Packed → Option Binding
  | 0, _ => none
  | room + 1, packed => do
      let record ← Record.ofPacked? fieldNames room packed
      let client ← record.field? "from" (Endpoint.ofPacked? room)
      let server ← record.field? "to" (Endpoint.ofPacked? room)
      let span ← record.field? "span" (Span.ofPacked? room)
      let annotations ← record.field? "annotations" (Annotations.ofPacked? room)
      let castRequired ← record.field? "cast_required" Packed.bool?
      return { client, server, span, annotations, castRequired }

end Binding

namespace Source

def packed (source : Source) : Packed :=
  .ofFields
    [ ("path", .ofString source.path),
      ("span", source.span.packed),
      ("annotations", source.annotations.packed) ]

def ofPacked? : Nat → Packed → Option Source
  | 0, _ => none
  | room + 1, packed => do
      let record ← Record.ofPacked? ["path", "span", "annotations"] room packed
      let path ← record.field? "path" Packed.string?
      let span ← record.field? "span" (Span.ofPacked? room)
      let annotations ← record.field? "annotations" (Annotations.ofPacked? room)
      return { path, span, annotations }

end Source

namespace ControllerInterface

def packed (interface : ControllerInterface) : Packed :=
  .ofFields
    [("name", .ofString interface.name), ("is_internal", .bool interface.isInternal)]

def ofPacked? : Nat → Packed → Option ControllerInterface
  | 0, _ => none
  | room + 1, packed => do
      let record ← Record.ofPacked? ["name", "is_internal"] room packed
      let name ← record.field? "name" Packed.string?
      let isInternal ← record.field? "is_internal" Packed.bool?
      return { name, isInternal }

end ControllerInterface

namespace Controller

def packed (controller : Controller) : Packed :=
  .ofFields
    [ ("interfaces", .ofList ControllerInterface.packed controller.interfaces),
      ("sources", .ofList Source.packed controller.sources),
      ("span", controller.span.packed) ]

def ofPacked? : Nat → Packed → Option Controller
  | 0, _ => none
  | room + 1, packed => do
      let record ← Record.ofPacked? ["interfaces", "sources", "span"] room packed
      let interfaces ← record.field? "interfaces"
        (Packed.list? ControllerInterface.ofPacked? room)
      let sources ← record.field? "sources" (Packed.list? Source.ofPacked? room)
      let span ← record.field? "span" (Span.ofPacked? room)
      return { interfaces, sources, span }

end Controller

end Adl
