import Adl.Bundle.Value
import Adl.Definition.Annotation

namespace Adl

/-! The packed form of annotations. Typed annotations are not part of it: they are
built again from the nodes. -/

mutual
def AnnotationValue.packed : AnnotationValue → Packed
  | .string text => .ofVariant "String" (.ofString text)
  | .number value => .ofVariant "Number" (.ofInt64 value)
  | .bool value => .ofVariant "Bool" (.bool value)
  | .null => .ofString "Null"
  | .nested node => .ofVariant "Annotation" node.packed
  | .array items => .ofVariant "Array" (.array (AnnotationValue.packedItems items))

def AnnotationValue.packedItems : List AnnotationValue → List Packed
  | [] => []
  | item :: rest => item.packed :: AnnotationValue.packedItems rest

def AnnotationArgument.packedItems : List AnnotationArgument → List Packed
  | [] => []
  | ⟨name, value⟩ :: rest =>
      .ofFields [("name", .ofString name), ("value", value.packed)] ::
        AnnotationArgument.packedItems rest

def AnnotationNode.packed : AnnotationNode → Packed
  | ⟨typeName, arguments, span⟩ =>
      .ofFields
        [ ("type_name", .ofString typeName),
          ("arguments", .array (AnnotationArgument.packedItems arguments)),
          ("span", span.packed) ]
end

def AnnotationValue.variantNames : List String :=
  ["String", "Number", "Bool", "Null", "Annotation", "Array"]

def AnnotationNode.fieldNames : List String := ["type_name", "arguments", "span"]

/-- An alternative other than an annotation or an array. -/
def AnnotationValue.ofPlain? (name : String) (contents : Option Packed) :
    Option AnnotationValue :=
  match name, contents with
  | "String", some contents => contents.string?.map .string
  | "Number", some contents => contents.int64?.map .number
  | "Bool", some contents => contents.bool?.map .bool
  | "Null", none | "Null", some .null => some .null
  | _, _ => none

/-- A node that is read by the given readers of its parts. -/
def AnnotationNode.ofParts? (readArguments : Packed → Option (List AnnotationArgument))
    (room : Nat) (packed : Packed) : Option AnnotationNode := do
  let record ← Record.ofPacked? fieldNames room packed
  let typeName ← record.field? "type_name" Packed.string?
  let arguments ← record.field? "arguments" readArguments
  let span ← record.field? "span" (Span.ofPacked? room)
  return { typeName, arguments, span }

mutual
def AnnotationValue.ofPacked? : Nat → Packed → Option AnnotationValue
  | 0, packed => do
      match ← packed.variant? AnnotationValue.variantNames with
      | ("Array", some contents) =>
          return .array (← Packed.list? (fun _ _ => none) 0 contents)
      | (name, contents) => AnnotationValue.ofPlain? name contents
  | room + 1, packed => do
      match ← packed.variant? AnnotationValue.variantNames with
      | ("Annotation", some contents) =>
          return .nested (← AnnotationNode.inside? room contents)
      | ("Array", some contents) =>
          return .array
            (← Packed.list? (fun _ => AnnotationValue.ofPacked? room) (room + 1) contents)
      | (name, contents) => AnnotationValue.ofPlain? name contents

def AnnotationArgument.ofPacked? : Nat → Packed → Option AnnotationArgument
  | 0, _ => none
  | room + 1, packed => do
      let record ← Record.ofPacked? ["name", "value"] room packed
      let name ← record.field? "name" Packed.string?
      let value ← record.field? "value" (AnnotationValue.ofPacked? room)
      return { name, value }

/-- A node, with the room that is left inside it. -/
def AnnotationNode.inside? : Nat → Packed → Option AnnotationNode
  | 0, packed => AnnotationNode.ofParts? (Packed.list? (fun _ _ => none) 0) 0 packed
  | room + 1, packed =>
      AnnotationNode.ofParts?
        (Packed.list? (fun _ => AnnotationArgument.ofPacked? room) (room + 1))
        (room + 1) packed
end

def AnnotationNode.ofPacked? : Nat → Packed → Option AnnotationNode
  | 0, _ => none
  | room + 1, packed => AnnotationNode.inside? room packed

namespace Annotations

def packed (annotations : Annotations) : Packed :=
  .ofFields [("nodes", .ofList AnnotationNode.packed annotations.nodes)]

def ofPacked? : Nat → Packed → Option Annotations
  | 0, _ => Option.none
  | room + 1, packed => do
      let record ← Record.ofPacked? ["nodes"] room packed
      let nodes ← record.field? "nodes" (Packed.list? AnnotationNode.ofPacked? room)
      return { nodes, typed := [] }

end Annotations

end Adl
