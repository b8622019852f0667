import Adl.Exchange.Reference
import Adl.Loading.Context

namespace Adl

/-! The form in which diagnostics, failures and observations are handed to other tools. -/

def Label.json (label : Label) : Json :=
  .ofFields [("span", label.span.json?), ("message", some (.string label.message))]

/-- Only a severity below an error is written. -/
def Diagnostic.json (diagnostic : Diagnostic) : Json :=
  .ofFields
    [ ("kind", some (.string diagnostic.kind.name)),
      ("message", some (.string diagnostic.message)),
      ("severity",
        if diagnostic.isError then none else some (.string diagnostic.severity.name)),
      ("span", diagnostic.span.json?),
      ("labels", Json.ofItems? Label.json diagnostic.labels),
      ("notes", Json.ofItems? Json.string diagnostic.notes) ]

/-- What kind of failure it is, its message, and its diagnostic where it has one. -/
def LoadError.jsonFields (error : LoadError) : List (String × Option Json) :=
  let (kind, diagnostic) := match error with
    | .fatal diagnostic => ("fatal", some diagnostic)
    | .aborted => ("aborted", none)
    | .internal _ => ("internal", none)
  [ ("error", some (.string kind)),
    ("message", some (.string error.message)),
    ("diagnostic", diagnostic.map Diagnostic.json) ]

def Visit.json (visit : Visit) : Json :=
  .array
    [ .string visit.label, .string visit.node.text, .string visit.definition,
      .string visit.phase.name ]

end Adl
