import Adl.Foundation.Span

namespace Adl

/-! Diagnostics: what a user is told about a definition. -/

/-- The check that a diagnostic comes from. -/
inductive DiagnosticKind where
  | syntaxError
  | definitionNotFound
  | cyclicDependency
  | invalidExtends
  | invalidOverride
  | duplicateName
  | missingArgument
  | tooManyArguments
  | noSuchParameter
  | undefinedParameter
  | incompatibleArgumentType
  | incompatibleArgumentValue
  | invalidTypeArgument
  | incompatibleTypeArgument
  | invalidSubComponent
  | invalidBinding
  | bindingCardinality
  | mandatoryToOptional
  | incompatibleSignature
  | duplicateBinding
  | unboundInterface
  | invalidInterface
  | invalidAttribute
  | invalidController
  | unimplementedInterface
  | invalidAnnotationUse
  | invalidAnnotationTarget
  | duplicateAnnotationUse
  | invalidSingleton
  | internalError
deriving DecidableEq, Repr

namespace DiagnosticKind

def all : List DiagnosticKind :=
  [.syntaxError, .definitionNotFound, .cyclicDependency, .invalidExtends,
    .invalidOverride, .duplicateName, .missingArgument, .tooManyArguments,
    .noSuchParameter, .undefinedParameter, .incompatibleArgumentType,
    .incompatibleArgumentValue, .invalidTypeArgument, .incompatibleTypeArgument,
    .invalidSubComponent, .invalidBinding, .bindingCardinality,
    .mandatoryToOptional, .incompatibleSignature, .duplicateBinding,
    .unboundInterface, .invalidInterface, .invalidAttribute, .invalidController,
    .unimplementedInterface, .invalidAnnotationUse, .invalidAnnotationTarget,
    .duplicateAnnotationUse, .invalidSingleton, .internalError]

def name : DiagnosticKind → String
  | .syntaxError => "syntax error"
  | .definitionNotFound => "definition not found"
  | .cyclicDependency => "cyclic dependency"
  | .invalidExtends => "invalid extends"
  | .invalidOverride => "invalid override"
  | .duplicateName => "duplicate name"
  | .missingArgument => "missing argument"
  | .tooManyArguments => "too many arguments"
  | .noSuchParameter => "no such parameter"
  | .undefinedParameter => "undefined parameter"
  | .incompatibleArgumentType => "incompatible argument type"
  | .incompatibleArgumentValue => "incompatible argument value"
  | .invalidTypeArgument => "invalid type argument"
  | .incompatibleTypeArgument => "incompatible type argument"
  | .invalidSubComponent => "invalid sub-component"
  | .invalidBinding => "invalid binding"
  | .bindingCardinality => "binding cardinality mismatch"
  | .mandatoryToOptional => "mandatory to optional binding"
  | .incompatibleSignature => "incompatible signature"
  | .duplicateBinding => "duplicate binding"
  | .unboundInterface => "unbound interface"
  | .invalidInterface => "invalid interface"
  | .invalidAttribute => "invalid attribute"
  | .invalidController => "invalid controller"
  | .unimplementedInterface => "unimplemented interface"
  | .invalidAnnotationUse => "invalid annotation"
  | .invalidAnnotationTarget => "invalid annotation target"
  | .duplicateAnnotationUse => "duplicate annotation"
  | .invalidSingleton => "invalid singleton"
  | .internalError => "internal compiler error"

def code (kind : DiagnosticKind) : Nat :=
  kind.ctorIdx

example : all.map code = List.range 30 := by decide

end DiagnosticKind

inductive Severity where
  | note
  | warning
  | error
deriving DecidableEq, Repr

def Severity.name : Severity → String
  | .note => "note"
  | .warning => "warning"
  | .error => "error"

/-- A further place that a diagnostic points at. -/
structure Label where
  span : Span
  message : String
deriving DecidableEq, Repr

structure Diagnostic where
  kind : DiagnosticKind
  severity : Severity
  span : Span
  message : String
  labels : List Label
  notes : List String
deriving DecidableEq, Repr

namespace Diagnostic

def error (kind : DiagnosticKind) (span : Span) (message : String) : Diagnostic :=
  ⟨kind, .error, span, message, [], []⟩

def warning (kind : DiagnosticKind) (span : Span) (message : String) : Diagnostic :=
  ⟨kind, .warning, span, message, [], []⟩

def withLabel (diagnostic : Diagnostic) (span : Span) (message : String) : Diagnostic :=
  { diagnostic with labels := diagnostic.labels ++ [⟨span, message⟩] }

def withNote (diagnostic : Diagnostic) (note : String) : Diagnostic :=
  { diagnostic with notes := diagnostic.notes ++ [note] }

/-- Places a diagnostic that points nowhere. -/
def placedAt (diagnostic : Diagnostic) (span : Span) : Diagnostic :=
  { diagnostic with span := diagnostic.span.orElse span }

def isError (diagnostic : Diagnostic) : Bool :=
  diagnostic.severity == .error

def headline (diagnostic : Diagnostic) : String :=
  diagnostic.severity.name ++ ": " ++ diagnostic.kind.name ++ ": " ++ diagnostic.message

end Diagnostic

end Adl
