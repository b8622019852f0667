import Adl.Definition.Annotation
import Adl.Definition.Reference
import Adl.Text.Json

namespace Adl

/-! The form in which spans, values, references and annotations are exchanged with other
tools: objects from which everything empty is left out. What is read back may also be
abbreviated: a reference or an annotation to its name, and a span to three numbers, which
then are those of a known file. -/

/-- A span that was not made in memory, as its four numbers. -/
def Span.json? (span : Span) : Option Json :=
  if span = .generated then
    none
  else
    some (.array
      [ .ofNat span.file.toNat, .ofNat span.start.toNat, .ofNat span.stop.toNat,
        .ofNat span.line.toNat ])

def Value.json : Value → Json
  | .string text => .string text
  | .number value => .integer value.toInt
  | .null => .null
  | .reference parameter => .object [("ref", .string parameter)]

def Resolved.json (resolved : Resolved) : Json :=
  .ofFields
    [("name", some (.string resolved.name)), ("id", resolved.id.map Json.ofNat)]

def Argument.json (argument : Argument) : Json :=
  .ofFields
    [ ("name", argument.name.map Json.string),
      ("value", some argument.value.json),
      ("span", argument.span.json?) ]

namespace Reference

mutual
def json : Reference → Json
  | ⟨name, arguments, typeArguments, span, resolved⟩ =>
      .ofFields
        [ ("name", some (.string name)),
          ("args", Json.ofItems? Argument.json arguments),
          ("targs",
            if typeArguments.isEmpty then none
            else some (.array (typeArgumentsJson typeArguments))),
          ("span", span.json?),
          ("resolved", resolved.map Resolved.json) ]

def typeArgumentsJson : List TypeArgument → List Json
  | [] => []
  | ⟨name, .definition reference, span⟩ :: rest =>
      typeArgumentJson name ("def", reference.json) span :: typeArgumentsJson rest
  | ⟨name, .parameter parameter, span⟩ :: rest =>
      typeArgumentJson name ("param", .string parameter) span :: typeArgumentsJson rest

private def typeArgumentJson (name : Option String) (value : String × Json)
    (span : Span) : Json :=
  .ofFields
    [("name", name.map Json.string), (value.1, some value.2), ("span", span.json?)]
end

end Reference

mutual
def AnnotationValue.json : AnnotationValue → Json
  | .string text => .string text
  | .number value => .integer value.toInt
  | .bool value => .bool value
  | .null => .null
  | .nested node => node.json
  | .array items => .array (AnnotationValue.jsonItems items)

def AnnotationValue.jsonItems : List AnnotationValue → List Json
  | [] => []
  | item :: rest => item.json :: AnnotationValue.jsonItems rest

def AnnotationArgument.jsonItems : List AnnotationArgument → List Json
  | [] => []
  | ⟨name, value⟩ :: rest =>
      .array [.string name, value.json] :: AnnotationArgument.jsonItems rest

def AnnotationNode.json : AnnotationNode → Json
  | ⟨typeName, arguments, span⟩ =>
      .ofFields
        [ ("type", some (.string typeName)),
          ("args",
            if arguments.isEmpty then none
            else some (.array (AnnotationArgument.jsonItems arguments))),
          ("span", span.json?) ]
end

/-- The nodes, and the kinds of the typed annotations, as two fields of their element. -/
def Annotations.jsonFields (annotations : Annotations) : List (String × Option Json) :=
  [ ("annotations", Json.ofItems? AnnotationNode.json annotations.nodes),
    ("typed", Json.ofItems? (fun built => .string built.kind) annotations.typed) ]

/-! ## Reading -/

private def numberOf (value : Json) : Nat :=
  value.natural?.getD 0

def Span.ofJson (file : UInt16) : Json → Span
  | .array [start, stop, line] =>
      ⟨file, .ofNat (numberOf start), .ofNat (numberOf stop), .ofNat (numberOf line)⟩
  | .array [file, start, stop, line] =>
      ⟨.ofNat (numberOf file), .ofNat (numberOf start), .ofNat (numberOf stop),
        .ofNat (numberOf line)⟩
  | _ => .generated

/-- The span of an element, or `otherwise` where none is given. -/
def Span.ofElement (file : UInt16) (otherwise : Span) (element : Json) : Span :=
  match element.field? "span" with
  | some span => .ofJson file span
  | none => otherwise

def Value.ofJson : Json → Value
  | .string text => .string text
  | .integer value => .number (Int64.ofInt value)
  | .object [("ref", .string parameter)] => .reference parameter
  | _ => .null

def Resolved.ofJson (value : Json) : Resolved :=
  ⟨value.textAt "name", (value.field? "id").bind Json.natural?⟩

/-- An argument without a span has that of its reference. -/
def Argument.ofJson (file : UInt16) (owner : Span) (value : Json) : Argument :=
  { name := value.textAt? "name"
    value := ((value.field? "value").map Value.ofJson).getD .null
    span := .ofElement file owner value }

namespace Reference

mutual
def ofJson (file : UInt16) : Json → Reference
  | .string name => ofName name
  | .object fields =>
      let value := Json.object fields
      let span := Span.ofElement file .generated value
      { name := value.textAt "name"
        arguments := (value.itemsAt "args").map (Argument.ofJson file span)
        typeArguments := typeArgumentsIn file span fields
        span
        resolved := (value.present? "resolved").map Resolved.ofJson }
  | _ => ofName ""

private def typeArgumentsIn (file : UInt16) (owner : Span) :
    List (String × Json) → List TypeArgument
  | [] => []
  | (name, .array items) :: rest =>
      if name = "targs" then typeArgumentsOfJson file owner items
      else typeArgumentsIn file owner rest
  | _ :: rest => typeArgumentsIn file owner rest

private def typeArgumentsOfJson (file : UInt16) (owner : Span) :
    List Json → List TypeArgument
  | [] => []
  | .object fields :: rest =>
      { name := (Json.object fields).textAt? "name"
        value := typeArgumentValueIn file fields
        span := .ofElement file owner (.object fields) } ::
        typeArgumentsOfJson file owner rest
  | _ :: rest => typeArgumentsOfJson file owner rest

private def typeArgumentValueIn (file : UInt16) :
    List (String × Json) → TypeArgumentValue
  | [] => .parameter ""
  | (name, value) :: rest =>
      if name = "def" then .definition (ofJson file value)
      else if name = "param" then .parameter (value.string?.getD "")
      else typeArgumentValueIn file rest
end

end Reference

mutual
def AnnotationValue.ofJson (file : UInt16) : Json → AnnotationValue
  | .string text => .string text
  | .integer value => .number (Int64.ofInt value)
  | .bool value => .bool value
  | .array items => .array (AnnotationValue.ofItems file items)
  | .object fields =>
      let value := Json.object fields
      .nested
        { typeName := value.textAt "type"
          arguments := AnnotationArgument.inFields file fields
          span := .ofElement file .generated value }
  | _ => .null

private def AnnotationValue.ofItems (file : UInt16) : List Json → List AnnotationValue
  | [] => []
  | item :: rest => .ofJson file item :: AnnotationValue.ofItems file rest

private def AnnotationArgument.inFields (file : UInt16) :
    List (String × Json) → List AnnotationArgument
  | [] => []
  | (name, .array items) :: rest =>
      if name = "args" then AnnotationArgument.ofItems file items
      else AnnotationArgument.inFields file rest
  | _ :: rest => AnnotationArgument.inFields file rest

private def AnnotationArgument.ofItems (file : UInt16) :
    List Json → List AnnotationArgument
  | [] => []
  | .array [.string name, value] :: rest =>
      ⟨name, .ofJson file value⟩ :: AnnotationArgument.ofItems file rest
  | _ :: rest => AnnotationArgument.ofItems file rest
end

/-- A text alone is the type of a node without arguments. -/
def AnnotationNode.ofJson (file : UInt16) (value : Json) : AnnotationNode :=
  match AnnotationValue.ofJson file value with
  | .nested node => node
  | _ => .ofType (value.string?.getD "")

def Annotations.ofJson (file : UInt16) (element : Json) : Annotations :=
  ⟨(element.itemsAt "annotations").map (AnnotationNode.ofJson file), []⟩

end Adl
