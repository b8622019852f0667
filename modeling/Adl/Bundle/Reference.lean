import Adl.Bundle.Value
import Adl.Definition.Reference

namespace Adl

/-! The packed form of references and of what declares their parts. The position of a
resolved definition is not part of it: the name finds the definition again. -/

namespace Resolved

def packed (resolved : Resolved) : Packed :=
  .ofFields [("name", .ofString resolved.name)]

def ofPacked? : Nat → Packed → Option Resolved
  | 0, _ => none
  | room + 1, packed => do
      let record ← Record.ofPacked? ["name"] room packed
      let name ← record.field? "name" Packed.string?
      return { name, id := none }

end Resolved

namespace Argument

def packed (argument : Argument) : Packed :=
  .ofFields
    [ ("name", .ofOption .ofString argument.name),
      ("value", argument.value.packed),
      ("span", argument.span.packed) ]

def ofPacked? : Nat → Packed → Option Argument
  | 0, _ => none
  | room + 1, packed => do
      let record ← Record.ofPacked? ["name", "value", "span"] room packed
      let name ← record.optional? "name" Packed.string?
      let value ← record.field? "value" Value.ofPacked?
      let span ← record.field? "span" (Span.ofPacked? room)
      return { name, value, span }

end Argument

namespace Reference

mutual
def packed : Reference → Packed
  | ⟨name, arguments, typeArguments, span, resolved⟩ =>
      .ofFields
        [ ("name", .ofString name),
          ("arguments", .ofList Argument.packed arguments),
          ("type_arguments", .array (packedTypeArguments typeArguments)),
          ("span", span.packed),
          ("resolved", .ofOption Resolved.packed resolved) ]

def packedTypeArguments : List TypeArgument → List Packed
  | [] => []
  | ⟨name, value, span⟩ :: rest =>
      .ofFields
        [ ("name", .ofOption .ofString name),
          ("value", packedValue value),
          ("span", span.packed) ] ::
        packedTypeArguments rest

def packedValue : TypeArgumentValue → Packed
  | .definition reference => .ofVariant "Definition" reference.packed
  | .parameter name => .ofVariant "TypeParameter" (.ofString name)
end

def fieldNames : List String :=
  ["name", "arguments", "type_arguments", "span", "resolved"]

/-- A reference whose type arguments are read by the given reader. -/
def ofParts? (readTypeArguments : Packed → Option (List TypeArgument))
    (room : Nat) (packed : Packed) : Option Reference := do
  let record ← Record.ofPacked? fieldNames room packed
  let name ← record.field? "name" Packed.string?
  let arguments ← record.field? "arguments" (Packed.list? Argument.ofPacked? room)
  let typeArguments ← record.field? "type_arguments" readTypeArguments
  let span ← record.field? "span" (Span.ofPacked? room)
  let resolved ← record.optional? "resolved" (Resolved.ofPacked? room)
  return { name, arguments, typeArguments, span, resolved }

/-- A type argument whose definition is read by the given reader. -/
def typeArgumentOfParts? (readDefinition : Packed → Option Reference)
    (room : Nat) (packed : Packed) : Option TypeArgument := do
  let record ← Record.ofPacked? ["name", "value", "span"] room packed
  let name ← record.optional? "name" Packed.string?
  let value ← record.field? "value" fun packed => do
    match ← packed.variant? ["Definition", "TypeParameter"] with
    | ("Definition", some contents) => return .definition (← readDefinition contents)
    | ("TypeParameter", some contents) => return .parameter (← contents.string?)
    | _ => none
  let span ← record.field? "span" (Span.ofPacked? room)
  return { name, value, span }

mutual
def ofPacked? : Nat → Packed → Option Reference
  | 0, _ => none
  | 1, packed => ofParts? (Packed.list? (fun _ _ => none) 0) 0 packed
  | room + 2, packed =>
      ofParts? (Packed.list? (fun _ => typeArgumentOfPacked? room) (room + 1))
        (room + 1) packed

def typeArgumentOfPacked? : Nat → Packed → Option TypeArgument
  | 0, _ => none
  | room + 1, packed => typeArgumentOfParts? (ofPacked? room) room packed
end

end Reference

namespace FormalParameter

def packed (parameter : FormalParameter) : Packed :=
  .ofFields [("name", .ofString parameter.name), ("span", parameter.span.packed)]

def ofPacked? : Nat → Packed → Option FormalParameter
  | 0, _ => none
  | room + 1, packed => do
      let record ← Record.ofPacked? ["name", "span"] room packed
      let name ← record.field? "name" Packed.string?
      let span ← record.field? "span" (Span.ofPacked? room)
      return { name, span }

end FormalParameter

namespace FormalTypeParameter

def packed (parameter : FormalTypeParameter) : Packed :=
  .ofFields
    [ ("name", .ofString parameter.name),
      ("conforms_to", .ofOption Reference.packed parameter.conformsTo),
      ("span", parameter.span.packed) ]

def ofPacked? : Nat → Packed → Option FormalTypeParameter
  | 0, _ => none
  | room + 1, packed => do
      let record ← Record.ofPacked? ["name", "conforms_to", "span"] room packed
      let name ← record.field? "name" Packed.string?
      let conformsTo ← record.optional? "conforms_to" (Reference.ofPacked? room)
      let span ← record.field? "span" (Span.ofPacked? room)
      return { name, conformsTo, span }

end FormalTypeParameter

namespace Import

def packed (declaration : Import) : Packed :=
  .ofFields
    [ ("package", .ofString declaration.package),
      ("simple_name", .ofString declaration.simpleName),
      ("span", declaration.span.packed) ]

def ofPacked? : Nat → Packed → Option Import
  | 0, _ => none
  | room + 1, packed => do
      let record ← Record.ofPacked? ["package", "simple_name", "span"] room packed
      let package ← record.field? "package" Packed.string?
      let simpleName ← record.field? "simple_name" Packed.string?
      let span ← record.field? "span" (Span.ofPacked? room)
      return { package, simpleName, span }

end Import

end Adl
