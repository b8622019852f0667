import Adl.Bundle.Element

namespace Adl

/-! Bundles: lists of definitions as bytes. What is read is what was written, but for
the positions of resolved definitions and the typed annotations. -/

namespace Decorations

def packed (decorations : Decorations) : Packed :=
  .ofFields
    [ ("extends_merged", .bool decorations.extendsMerged),
      ("singleton", .bool decorations.singleton),
      ("template_of", .ofOption .ofString decorations.templateOf),
      ("partially_instantiated", .bool decorations.partiallyInstantiated),
      ("substituted_from", .ofOption .ofString decorations.substitutedFrom),
      ("shared_implementations", .ofList .ofString decorations.sharedImplementations) ]

def fieldNames : List String :=
  ["extends_merged", "singleton", "template_of", "partially_instantiated",
    "substituted_from", "shared_implementations"]

def ofPacked? : Nat → Packed → Option Decorations
  | 0, _ => Option.none
  | room + 1, packed => do
      let record ← Record.ofPacked? fieldNames room packed
      let extendsMerged ← record.field? "extends_merged" Packed.bool?
      let singleton ← record.field? "singleton" Packed.bool?
      let templateOf ← record.optional? "template_of" Packed.string?
      let partiallyInstantiated ← record.field? "partially_instantiated" Packed.bool?
      let substitutedFrom ← record.optional? "substituted_from" Packed.string?
      let sharedImplementations ← record.field? "shared_implementations"
        (Packed.list? (fun _ => Packed.string?) room)
      return {
        extendsMerged, singleton, templateOf, partiallyInstantiated, substitutedFrom,
        sharedImplementations }

end Decorations

namespace Definition

def packed (definition : Definition) : Packed :=
  .ofFields
    [ ("name", .ofString definition.name),
      ("span", definition.span.packed),
      ("capabilities", definition.capabilities.packed),
      ("is_abstract", .bool definition.isAbstract),
      ("imports", .ofList Import.packed definition.imports),
      ("extends", .ofList Reference.packed definition.parents),
      ("formal_parameters", .ofList FormalParameter.packed definition.parameters),
      ("formal_type_parameters",
        .ofList FormalTypeParameter.packed definition.typeParameters),
      ("interfaces", .ofList Interface.packed definition.interfaces),
      ("internal_interfaces", .ofList Interface.packed definition.internalInterfaces),
      ("attributes", .ofList Attribute.packed definition.attributes),
      ("components", .ofList Component.packed definition.components),
      ("bindings", .ofList Binding.packed definition.bindings),
      ("sources", .ofList Source.packed definition.sources),
      ("controllers", .ofList Controller.packed definition.controllers),
      ("annotations", definition.annotations.packed),
      ("decorations", definition.decorations.packed) ]

def fieldNames : List String :=
  ["name", "span", "capabilities", "is_abstract", "imports", "extends",
    "formal_parameters", "formal_type_parameters", "interfaces", "internal_interfaces",
    "attributes", "components", "bindings", "sources", "controllers", "annotations",
    "decorations"]

def ofPacked? : Nat → Packed → Option Definition
  | 0, _ => none
  | room + 1, packed => do
      let record ← Record.ofPacked? fieldNames room packed
      let name ← record.field? "name" Packed.string?
      let span ← record.field? "span" (Span.ofPacked? room)
      let capabilities ← record.field? "capabilities" MemberSet.ofPacked?
      let isAbstract ← record.field? "is_abstract" Packed.bool?
      let imports ← record.field? "imports" (Packed.list? Import.ofPacked? room)
      let parents ← record.field? "extends" (Packed.list? Reference.ofPacked? room)
      let parameters ← record.field? "formal_parameters"
        (Packed.list? FormalParameter.ofPacked? room)
      let typeParameters ← record.field? "formal_type_parameters"
        (Packed.list? FormalTypeParameter.ofPacked? room)
      let interfaces ← record.field? "interfaces"
        (Packed.list? Interface.ofPacked? room)
      let internalInterfaces ← record.field? "internal_interfaces"
        (Packed.list? Interface.ofPacked? room)
      let attributes ← record.field? "attributes"
        (Packed.list? Attribute.ofPacked? room)
      let components ← record.field? "components"
        (Packed.list? Component.ofPacked? room)
      let bindings ← record.field? "bindings" (Packed.list? Binding.ofPacked? room)
      let sources ← record.field? "sources" (Packed.list? Source.ofPacked? room)
      let controllers ← record.field? "controllers"
        (Packed.list? Controller.ofPacked? room)
      let annotations ← record.field? "annotations" (Annotations.ofPacked? room)
      let decorations ← record.field? "decorations" (Decorations.ofPacked? room)
      return {
        name, span, capabilities, isAbstract, imports, parents, parameters,
        typeParameters, interfaces, internalInterfaces, attributes, components, bindings,
        sources, controllers, annotations, decorations }

end Definition

namespace Bundle

/-- How many arrays and maps may be open at a time while a bundle is read. -/
def nestingLimit : Nat := 1023

def encode (definitions : List Definition) : List UInt8 :=
  (Packed.ofList Definition.packed definitions).bytes

/-- Bytes after the list are not looked at. -/
def decode? (bytes : List UInt8) : Option (List Definition) := do
  Packed.list? Definition.ofPacked? nestingLimit (← Packed.ofBytes? bytes)

end Bundle

end Adl
