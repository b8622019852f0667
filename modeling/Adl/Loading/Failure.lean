import Adl.Definition.Merge
import Adl.Diagnostic.Basic

namespace Adl

/-! Why loading a definition stops. -/

/-- A fault of the front-end or of its configuration, not of a definition. -/
inductive InternalError where
  | merge (conflict : MergeConflict)
  | missingCapability (definition : String) (capability : Capability)
  | missingParser (name : String)
  | malformedNode (definition detail : String)
  | missingProcessor (kind : String)
deriving DecidableEq, Repr

def InternalError.message : InternalError → String
  | .merge conflict => "merge failed: " ++ conflict.message
  | .missingCapability definition capability =>
      "definition '" ++ definition ++ "' lacks the " ++ capability.name ++ " capability"
  | .missingParser name =>
      "no parser configured to load registered source '" ++ name ++ "'"
  | .malformedNode definition detail =>
      "malformed node in '" ++ definition ++ "': " ++ detail
  | .missingProcessor kind =>
      "no processor registered for annotation '" ++ kind ++ "'"

inductive LoadError where
  /-- The definition cannot be used. -/
  | fatal (diagnostic : Diagnostic)
  /-- An error was recorded and the policy is to stop at the first one. -/
  | aborted
  | internal (error : InternalError)
deriving DecidableEq, Repr

namespace LoadError

def message : LoadError → String
  | .fatal diagnostic => diagnostic.message
  | .aborted => "compilation aborted"
  | .internal error => "internal compiler error: " ++ error.message

def ofDiagnostic (kind : DiagnosticKind) (span : Span) (message : String) : LoadError :=
  .fatal (.error kind span message)

def malformed (definition detail : String) : LoadError :=
  .internal (.malformedNode definition detail)

def isFatalOf (error : LoadError) (kind : DiagnosticKind) : Bool :=
  match error with
  | .fatal diagnostic => diagnostic.kind == kind
  | _ => false

end LoadError

end Adl
