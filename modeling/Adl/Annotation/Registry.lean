import Adl.Loading.Context

namespace Adl

/-! The kinds of annotations: which arguments a kind takes, how an annotation is
built from them, and what is done for it while definitions are loaded. -/

/-- What is done for an annotation of an element; a new definition may take the place
of the one that carries it. -/
abbrev Processor :=
  Annotation → NodePath → Definition → Phase → Loading (Option Definition)

/-- The arguments of an annotation, with the defaults of those not written. -/
abbrev AnnotationArguments := Table AnnotationValue

namespace AnnotationArguments

def bool (arguments : AnnotationArguments) (name : String) : Except String Bool :=
  match arguments.find? name with
  | some (.bool value) => .ok value
  | some value => .error ("'" ++ name ++ "' must be a boolean, found " ++ value.text)
  | none => .error ("no value for '" ++ name ++ "'")

def string (arguments : AnnotationArguments) (name : String) : Except String String :=
  match arguments.find? name with
  | some (.string text) => .ok text
  | some value => .error ("'" ++ name ++ "' must be a string, found " ++ value.text)
  | none => .error ("no value for '" ++ name ++ "'")

end AnnotationArguments

structure AnnotationParameter where
  name : String
  default : Option AnnotationValue

structure AnnotationDescriptor where
  name : String
  parameters : List AnnotationParameter
  build : AnnotationArguments → Except String Annotation
  processor : Option Processor

inductive AnnotationError where
  | unknownKind (name : String)
  | unknownArgument (kind name : String)
  | missingArgument (kind name : String)
  | duplicateArgument (kind name : String)
  | invalid (kind message : String)
deriving DecidableEq, Repr

def AnnotationError.message : AnnotationError → String
  | .unknownKind name => "unknown annotation '@" ++ name ++ "'"
  | .unknownArgument kind name =>
      "annotation '@" ++ kind ++ "' has no parameter '" ++ name ++ "'"
  | .missingArgument kind name =>
      "missing value for parameter '" ++ name ++ "' of annotation '@" ++ kind ++ "'"
  | .duplicateArgument kind name =>
      "parameter '" ++ name ++ "' of annotation '@" ++ kind ++ "' is given twice"
  | .invalid kind message => "invalid annotation '@" ++ kind ++ "': " ++ message

/-- A short name for the kind of an error. -/
def AnnotationError.code : AnnotationError → String
  | .unknownKind _ => "unknown_kind"
  | .unknownArgument _ _ => "unknown_argument"
  | .missingArgument _ _ => "missing_argument"
  | .duplicateArgument _ _ => "duplicate_argument"
  | .invalid _ _ => "invalid"

structure AnnotationRegistry where
  kinds : Table AnnotationDescriptor

namespace AnnotationRegistry

def empty : AnnotationRegistry := ⟨.empty⟩

def register (registry : AnnotationRegistry) (descriptor : AnnotationDescriptor) :
    AnnotationRegistry :=
  ⟨registry.kinds.insert descriptor.name descriptor⟩

/-- A kind may be written with the package that it comes from. -/
def descriptor? (registry : AnnotationRegistry) (typeName : String) :
    Option AnnotationDescriptor :=
  registry.kinds.find? (Text.simpleName typeName)

def processor? (registry : AnnotationRegistry) (kind : String) : Option Processor :=
  (registry.descriptor? kind).bind (·.processor)

/-- The parameter of an argument without a name. -/
def defaultParameter : String := "value"

def argumentName (argument : AnnotationArgument) : String :=
  if argument.name.isEmpty then defaultParameter else argument.name

/-- Takes the written arguments; each must name a parameter, and none twice. -/
def takeWritten (descriptor : AnnotationDescriptor) :
    List AnnotationArgument → AnnotationArguments →
    Except AnnotationError AnnotationArguments
  | [], taken => .ok taken
  | argument :: rest, taken =>
      let name := argumentName argument
      if descriptor.parameters.all (·.name != name) then
        .error (.unknownArgument descriptor.name name)
      else if taken.contains name then
        .error (.duplicateArgument descriptor.name name)
      else
        takeWritten descriptor rest (taken.insert name argument.value)

/-- Adds the defaults of the parameters that were not written. -/
def takeDefaults (kind : String) :
    List AnnotationParameter → AnnotationArguments →
    Except AnnotationError AnnotationArguments
  | [], taken => .ok taken
  | parameter :: rest, taken =>
      if taken.contains parameter.name then
        takeDefaults kind rest taken
      else
        match parameter.default with
        | some value => takeDefaults kind rest (taken.insert parameter.name value)
        | none => .error (.missingArgument kind parameter.name)

def build (registry : AnnotationRegistry) (node : AnnotationNode) :
    Except AnnotationError Annotation :=
  match registry.descriptor? node.typeName with
  | none => .error (.unknownKind node.typeName)
  | some descriptor => do
      let written ← takeWritten descriptor node.arguments .empty
      let arguments ← takeDefaults descriptor.name descriptor.parameters written
      match descriptor.build arguments with
      | .ok built => return built
      | .error message => .error (.invalid descriptor.name message)

end AnnotationRegistry

end Adl
