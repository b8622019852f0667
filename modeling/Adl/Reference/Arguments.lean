import Adl.Loading.Context
import Adl.Reference.Hoisted

namespace Adl

/-! The value arguments of a reference, matched with the parameters of its target. -/

namespace Arguments

/-- Arguments hoisted out of type arguments belong to the instances of a generic
definition, not to the definition itself. -/
def isRelevant (target : Definition) (argument : Argument) : Bool :=
  !(target.isGeneric && argument.name.any Hoisted.isHoisted)

/-- Gives the relevant arguments the names of the parameters at their positions. -/
def nameByPosition (target : Definition) : List String → List Argument → List Argument
  | _, [] => []
  | [], arguments => arguments
  | parameter :: parameters, argument :: rest =>
      if isRelevant target argument then
        argument.withName parameter :: nameByPosition target parameters rest
      else
        argument :: nameByPosition target (parameter :: parameters) rest

/-! ## Matching names -/

variable (target : Definition) (span : Span)

def complaint (kind : DiagnosticKind) (message : String) : Diagnostic :=
  .error kind span message

def missing (parameter : String) : Diagnostic :=
  complaint span .missingArgument
    ("missing argument for parameter '" ++ parameter ++ "' of '" ++ target.name ++ "'")

/-- What is wrong with as many arguments by position. -/
def positionProblem? (count : Nat) : Option Diagnostic :=
  let parameters := target.parameters.map (·.name)
  match parameters[count]? with
  | some parameter => some (missing target span parameter)
  | none =>
      if parameters.length < count then
        some (complaint span .tooManyArguments
          ("too many arguments for '" ++ target.name ++ "': expected " ++
            toString parameters.length ++ ", found " ++ toString count))
      else
        none

/-- The arguments that name no parameter, or one that is bound already; with the
parameters that are bound. -/
def nameProblems : List String → List Argument → List Diagnostic × List String
  | bound, [] => ([], bound)
  | bound, argument :: rest =>
      let name := argument.name.getD ""
      if !target.hasParameter name then
        let (problems, bound) := nameProblems bound rest
        (complaint argument.span .noSuchParameter
          ("'" ++ target.name ++ "' has no parameter named '" ++ name ++ "'") :: problems,
          bound)
      else if bound.contains name then
        let (problems, bound) := nameProblems bound rest
        (complaint argument.span .duplicateName
          ("parameter '" ++ name ++ "' is bound twice") :: problems, bound)
      else
        nameProblems (bound ++ [name]) rest

/-- What is wrong with arguments by name. The first parameter without an argument is
reported, but only when nothing else is wrong. -/
def namedProblems (arguments : List Argument) : List Diagnostic :=
  let (problems, bound) := nameProblems target [] arguments
  if problems.isEmpty then
    ((target.parameters.find? fun parameter => !bound.contains parameter.name).map
      fun parameter => missing target span parameter.name).toList
  else
    problems

/-! ## Types -/

/-- The use of a parameter of the scope as an argument of an expected type. -/
def checkForwarded (scope : Option Definition) (used : String)
    (expected : Option ParameterType) : Loading Bool := do
  match scope.filter (·.hasParameter used) with
  | none =>
      Loading.recordError .undefinedParameter span
        ("undefined parameter '" ++ used ++ "'")
      return false
  | some scope =>
      match expected with
      | none => return true
      | some type =>
          match ← Loading.infer scope.name used type with
          | none => return true
          | some previous =>
              if previous = type then
                return true
              else
                Loading.recordError .incompatibleArgumentType span
                  ("parameter '" ++ used ++ "' is used as " ++ type.name ++
                    " here but as " ++ previous.name ++ " elsewhere")
                return false

def checkValue (scope : Option Definition) (argument : Argument) : Loading Bool := do
  let name := argument.name.getD ""
  let expected := (← Loading.context).inferredType? target.name name
  match argument.value with
  | .reference used => checkForwarded argument.span scope used expected
  | literal =>
      match expected with
      | none => return true
      | some type =>
          if type.accepts literal then
            return true
          else
            Loading.recordError .incompatibleArgumentValue argument.span
              ("value " ++ literal.text ++ " is not compatible with parameter '" ++ name ++
                "' of type " ++ type.name)
            return false

def checkValues (scope : Option Definition) : List Argument → Loading Bool
  | [] => return true
  | argument :: rest => do
      let valid ← checkValue target scope argument
      let others ← checkValues scope rest
      return valid && others

/-! ## The check -/

def refuse (diagnostics : List Diagnostic) : Loading Bool := do
  Loading.recordAll diagnostics
  return false

/-- Whether the arguments bind the parameters of the target; arguments by position
are given names. -/
def check (target : Definition) (scope : Option Definition) : Revising Reference Bool := do
  let reference ← Drafting.draft
  let relevant := reference.arguments.filter (isRelevant target)
  let parameters := target.parameters.map (·.name)
  if parameters.isEmpty then
    if relevant.isEmpty then
      return true
    else
      refuse [complaint reference.span .noSuchParameter
        ("'" ++ target.name ++ "' has no parameter")]
  else if relevant.isEmpty then
    refuse [complaint reference.span .missingArgument
      ("missing arguments for '" ++ target.name ++ "': expected " ++
        ", ".intercalate parameters)]
  else if relevant.all (·.name.isNone) then
    match positionProblem? target reference.span relevant.length with
    | some diagnostic => refuse [diagnostic]
    | none =>
        let named := nameByPosition target parameters reference.arguments
        Drafting.modifyDraft fun reference => { reference with arguments := named }
        checkValues target scope (List.zipWith Argument.withName relevant parameters)
  else if relevant.any (·.name.isNone) then
    Step.fail (.malformed target.name
      ("reference '" ++ Argument.listText relevant ++
        "' mixes ordinal and named arguments"))
  else
    match namedProblems target reference.span relevant with
    | [] => checkValues target scope relevant
    | diagnostics => refuse diagnostics

end Arguments

end Adl
