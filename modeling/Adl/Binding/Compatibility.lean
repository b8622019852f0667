import Adl.Definition.Basic
import Adl.Diagnostic.Basic

namespace Adl

/-! When a client interface may be bound to a server interface. -/

/-- One end of a binding with the interface found there. -/
structure BoundEnd where
  label : String
  interface : Interface
  index : Option UInt32

namespace BoundEnd

/-- Whether the end designates one element. -/
def isSingle (bound : BoundEnd) : Bool :=
  bound.interface.isSingleton || bound.index.isSome

private def multiplicity (bound : BoundEnd) : String :=
  if bound.isSingle then "single" else "collection"

/-- What is wrong with the index of an end. -/
def indexProblem? (bound : BoundEnd) : Option String :=
  match bound.index, bound.interface.cardinality with
  | some _, .singleton =>
      some ("'" ++ bound.label ++ "' is not a collection interface")
  | some index, .collection (some size) =>
      if index < size then none
      else
        some ("index " ++ toString index ++ " is out of bounds of '" ++ bound.label ++
          "' (size " ++ toString size ++ ")")
  | _, _ => none

end BoundEnd

namespace Compatibility

variable (client server : BoundEnd)

def problem (kind : DiagnosticKind) (message : String) :
    List (DiagnosticKind × String) :=
  [(kind, message)]

def roleProblems : List (DiagnosticKind × String) :=
  (if client.interface.isClient then []
    else problem .invalidBinding
      ("'" ++ client.label ++ "' is not a client interface and cannot be bound from")) ++
  (if server.interface.isServer then []
    else problem .invalidBinding
      ("'" ++ server.label ++ "' is not a server interface and cannot be bound to"))

def indexProblems : List (DiagnosticKind × String) :=
  (client.indexProblem?.toList ++ server.indexProblem?.toList).map
    fun message => (.invalidBinding, message)

def contingencyProblems : List (DiagnosticKind × String) :=
  if client.interface.isMandatory && server.interface.isOptional then
    problem .mandatoryToOptional
      ("mandatory interface '" ++ client.label ++
        "' cannot be bound to optional interface '" ++ server.label ++ "'")
  else
    []

/-- A whole collection goes to a whole collection, and a mandatory one needs an
element of the other side for each of its own. -/
def cardinalityProblems : List (DiagnosticKind × String) :=
  if client.isSingle != server.isSingle then
    problem .bindingCardinality
      ("cannot bind " ++ client.multiplicity ++ " interface '" ++ client.label ++
        "' to " ++ server.multiplicity ++ " interface '" ++ server.label ++ "'")
  else if !client.isSingle && client.interface.isMandatory then
    match client.interface.elementCount?, server.interface.elementCount? with
    | some emitted, some received =>
        if received < emitted then
          problem .bindingCardinality
            ("'" ++ client.label ++ "' has " ++ toString emitted ++ " elements but '" ++
              server.label ++ "' only " ++ toString received)
        else
          []
    | _, _ => []
  else
    []

def needsCast : Bool :=
  client.interface.signature != server.interface.signature

def signatureProblems (extends? : String → String → Bool) :
    List (DiagnosticKind × String) :=
  if needsCast client server &&
      !extends? server.interface.signature client.interface.signature then
    problem .incompatibleSignature
      ("'" ++ client.label ++ "' requires " ++ client.interface.signature ++ " but '" ++
        server.label ++ "' provides " ++ server.interface.signature)
  else
    []

def problems (extends? : String → String → Bool) : List (DiagnosticKind × String) :=
  roleProblems client server ++ indexProblems client server ++
    contingencyProblems client server ++ cardinalityProblems client server ++
    signatureProblems client server extends?

/-- Whether a compatible pair needs a cast, or everything that is wrong with it. -/
def check (extends? : String → String → Bool) (span : Span) :
    Except (List Diagnostic) Bool :=
  match problems client server extends? with
  | [] => .ok (needsCast client server)
  | found => .error (found.map fun (kind, message) => .error kind span message)

end Compatibility

/-! ## Conformance

A definition conforms to a type when it could stand where the type is bound: it
serves what the type serves, and requires nothing that the type does not declare. -/

namespace Conformance

variable (extends? : String → String → Bool) (value type : Definition) (span : Span)

def problem (detail : String) : Diagnostic :=
  .error .incompatibleTypeArgument span
    ("'" ++ value.name ++ "' does not conform to '" ++ type.name ++ "': " ++ detail)

def bindingProblems (client server : BoundEnd) : List Diagnostic :=
  match Compatibility.check client server extends? span with
  | .ok _ => []
  | .error found => found.map fun diagnostic => problem value type span diagnostic.message

/-- What is wrong with the value at an interface that the type serves. -/
def serverProblems (required : Interface) : List Diagnostic :=
  match value.interface? required.name with
  | none => [problem value type span ("missing server interface '" ++ required.name ++ "'")]
  | some provided =>
      bindingProblems extends? value type span
        ⟨"this." ++ required.name, required.dual, none⟩
        ⟨provided.name, provided, none⟩

/-- What is wrong with an interface that the value requires. -/
def clientProblems (used : Interface) : List Diagnostic :=
  match type.interface? used.name with
  | none =>
      if used.isMandatory then
        [problem value type span
          ("client interface '" ++ used.name ++ "' is not declared by the type")]
      else
        []
  | some declared =>
      bindingProblems extends? value type span
        ⟨used.name, used, none⟩
        ⟨"this." ++ declared.name, declared.dual, none⟩

def problems : List Diagnostic :=
  (type.interfaces.filter (·.isServer)).flatMap (serverProblems extends? value type span) ++
    (value.interfaces.filter (·.isClient)).flatMap (clientProblems extends? value type span)

end Conformance

end Adl
