import Adl.Annotation.Predefined
import Adl.Bundle.Definition
import Adl.Compilation
import Adl.Diagnostic.Printer
import Adl.Signature

namespace Adl

/-! The check of a bundle: its definitions are compiled without any source text, and
what was found is reported. -/

/-- What a check is asked for. -/
structure CheckRequest where
  /-- The bytes of the bundle, if it could be read. -/
  bundle : Option (List UInt8)
  /-- The definitions to check; all of the bundle if there are none. -/
  roots : List String
  /-- The text of the options. -/
  options : Option String
  /-- The text of the table of signatures. -/
  signatures : Option String

/-- Why a check was not done. -/
inductive CheckFailure where
  | badUsage
  | badOptions
  | badSignatures
  | missingBundle
  | badBundle
deriving DecidableEq, Repr

def CheckFailure.message : CheckFailure → String
  | .badUsage => "the command line is not well formed"
  | .badOptions => "the options cannot be read"
  | .badSignatures => "the signatures cannot be read"
  | .missingBundle => "the bundle cannot be read"
  | .badBundle => "the bundle cannot be decoded"

structure CheckReport where
  /-- The number of definitions that were asked for. -/
  checked : Nat
  errors : List Diagnostic
  warnings : List Diagnostic

namespace CheckReport

def isOk (report : CheckReport) : Bool :=
  report.errors.isEmpty

private def diagnosticJson (diagnostic : Diagnostic) : Json :=
  .object
    [("kind", .string diagnostic.kind.name), ("message", .string diagnostic.message)]

def json (report : CheckReport) : Json :=
  .object
    [ ("checked", .integer report.checked),
      ("errors", .array (report.errors.map diagnosticJson)),
      ("ok", .bool report.isOk),
      ("warnings", .array (report.warnings.map diagnosticJson)) ]

/-- The errors, or else the warnings, as texts. No source text is at hand. -/
def text (report : CheckReport) : String :=
  Diagnostic.listText .empty (report.errors ++ report.warnings)

end CheckReport

namespace CheckRequest

private def readOptions (request : CheckRequest) : Except CheckFailure Options :=
  match request.options with
  | none => .ok .default
  | some text =>
      match (Json.ofText? text).bind Options.ofJson? with
      | some options => .ok options
      | none => .error .badOptions

private def readSignatures (request : CheckRequest) : Except CheckFailure SignatureTable :=
  match request.signatures with
  | none => .ok .empty
  | some text =>
      match (Json.ofText? text).bind SignatureTable.ofJson? with
      | some signatures => .ok signatures
      | none => .error .badSignatures

private def readBundle (request : CheckRequest) : Except CheckFailure (List Definition) :=
  match request.bundle with
  | none => .error .missingBundle
  | some bytes =>
      match Bundle.decode? bytes with
      | some definitions => .ok definitions
      | none => .error .badBundle

/-- The front-end of a check: predefined annotations, and no text to parse. -/
def frontEnd (signatures : SignatureTable) : FrontEnd :=
  { registry := .predefined
    parser := none
    locator := none
    signatureExtends := signatures.extends?
    countsLoads := false }

def run (request : CheckRequest) : Except CheckFailure CheckReport := do
  let options ← request.readOptions
  let signatures ← request.readSignatures
  let definitions ← request.readBundle
  let roots :=
    if request.roots.isEmpty then definitions.map (·.name) else request.roots
  let result := (frontEnd signatures).compile (.ofDefinitions options definitions) roots
  match result.outcome with
  | .ok compiled => return ⟨roots.length, [], compiled.warnings⟩
  | .error errors => return ⟨roots.length, errors, []⟩

end CheckRequest

/-- The exit status: zero where nothing is wrong, one where something was found, two
where the check was not done. -/
def Check.exitStatus : Except CheckFailure CheckReport → UInt32
  | .ok report => if report.isOk then 0 else 1
  | .error _ => 2

end Adl
