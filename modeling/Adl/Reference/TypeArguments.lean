import Adl.Loading.Context

namespace Adl

/-! The type arguments of a reference, matched with the type parameters of its
target. -/

namespace TypeArguments

variable (reference : Reference) (generic : String) (parameters : List String)

def complaint (span : Span) (message : String) : Diagnostic :=
  .error .invalidTypeArgument span message

def missing (parameter : String) : Diagnostic :=
  complaint reference.span
    ("missing type argument for '" ++ parameter ++ "' of '" ++ generic ++ "'")

/-- What is wrong with as many type arguments by position. -/
def positionProblem? (count : Nat) : Option Diagnostic :=
  match parameters[count]? with
  | some parameter => some (missing reference generic parameter)
  | none =>
      if parameters.length < count then
        some (complaint reference.span
          ("too many type arguments for '" ++ generic ++ "': expected " ++
            toString parameters.length ++ ", found " ++ toString count))
      else
        none

/-- The positions of the arguments that bind a parameter, and what is wrong with the
other arguments. -/
def positionsByName : List (String × Nat) → Nat → List TypeArgument →
    List (String × Nat) × List Diagnostic
  | bound, _, [] => (bound, [])
  | bound, position, argument :: rest =>
      let name := argument.name.getD ""
      if !parameters.contains name then
        let (bound, problems) := positionsByName bound (position + 1) rest
        (bound, complaint argument.span
          ("'" ++ generic ++ "' has no type parameter named '" ++ name ++ "'") :: problems)
      else if bound.any (·.1 == name) then
        let (bound, problems) := positionsByName bound (position + 1) rest
        (bound, complaint argument.span
          ("type parameter '" ++ name ++ "' is bound twice") :: problems)
      else
        positionsByName (bound ++ [(name, position)]) (position + 1) rest

/-- The bound parameters in the order of their declaration. -/
def inDeclarationOrder (bound : List (String × Nat)) : List (String × Nat) :=
  bound.mergeSort fun left right =>
    parameters.idxOf left.1 ≤ parameters.idxOf right.1

def refuse (diagnostics : List Diagnostic) :
    Loading (Option (List (String × Nat))) := do
  Loading.recordAll diagnostics
  return none

/-- Each type parameter with the position of its argument. -/
def positions : Loading (Option (List (String × Nat))) := do
  let arguments := reference.typeArguments
  if parameters.isEmpty then
    refuse [complaint reference.span ("'" ++ generic ++ "' has no type parameter")]
  else if arguments.isEmpty then
    refuse [complaint reference.span
      ("missing type arguments for '" ++ generic ++ "': expected " ++
        ", ".intercalate parameters)]
  else if arguments.all (·.name.isNone) then
    match positionProblem? reference generic parameters arguments.length with
    | some diagnostic => refuse [diagnostic]
    | none => return some (parameters.zip (List.range parameters.length))
  else if arguments.any (·.name.isNone) then
    Step.fail (.malformed generic
      ("reference '" ++ reference.text ++ "' mixes ordinal and named type arguments"))
  else
    let (bound, problems) := positionsByName generic parameters [] 0 arguments
    if !problems.isEmpty then
      refuse problems
    else
      match parameters.find? fun parameter => !bound.any (·.1 == parameter) with
      | some parameter => refuse [missing reference generic parameter]
      | none => return some (inDeclarationOrder parameters bound)

end TypeArguments

end Adl
