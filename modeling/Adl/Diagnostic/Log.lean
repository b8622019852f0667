import Adl.Loading.Step

namespace Adl

/-! The record of diagnostics. Each is kept once; under the second policy the first
error that is recorded stops the compilation. -/

inductive ErrorPolicy where
  | collect
  | failFast
deriving DecidableEq, Repr

structure DiagnosticLog where
  policy : ErrorPolicy
  errors : List Diagnostic
  warnings : List Diagnostic
deriving DecidableEq, Repr

namespace DiagnosticLog

def ofPolicy (policy : ErrorPolicy) : DiagnosticLog :=
  ⟨policy, [], []⟩

def recordOnce (known : List Diagnostic) (diagnostic : Diagnostic) :
    List Diagnostic :=
  if known.contains diagnostic then known else known ++ [diagnostic]

/-- Records a diagnostic among the warnings, whatever its severity. -/
def warned (log : DiagnosticLog) (diagnostic : Diagnostic) : DiagnosticLog :=
  { log with warnings := recordOnce log.warnings diagnostic }

/-- Records a diagnostic. An error that is already known changes nothing. -/
def record (diagnostic : Diagnostic) : Step DiagnosticLog Unit := fun log =>
  if !diagnostic.isError then
    (.ok (), log.warned diagnostic)
  else if log.errors.contains diagnostic then
    (.ok (), log)
  else
    let log := { log with errors := log.errors ++ [diagnostic] }
    match log.policy with
    | .collect => (.ok (), log)
    | .failFast => (.error .aborted, log)

/-- Records a fatal diagnostic and goes on; other failures stand. -/
def absorb : LoadError → Step DiagnosticLog Unit
  | .fatal diagnostic => record diagnostic
  | error => Step.fail error

def hasErrors (log : DiagnosticLog) : Bool :=
  !log.errors.isEmpty

def cleared (log : DiagnosticLog) : DiagnosticLog :=
  { log with errors := [], warnings := [] }

end DiagnosticLog

end Adl
