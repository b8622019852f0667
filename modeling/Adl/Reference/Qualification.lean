import Adl.Definition.Basic

namespace Adl

/-! Full names for the short names in references, by the imports and the package of
the definition that holds the reference. -/

namespace Qualification

/-- The package of a definition; the arguments in the name of an instance or of a
copy do not belong to it. -/
def package? (name : String) : Option String :=
  let base := name.toList.takeWhile fun character =>
    character != '<' && character != '('
  (Text.splitLastDot? base).map fun (package, _) => String.ofList package

variable (isKnown : String → Bool) (scope : Definition)

def fromSingleImport? (name : String) : Option String :=
  (scope.imports.filter (!·.isOnDemand)).findSome? (·.qualify? name)

def fromPackage? (name : String) : Option String :=
  ((package? scope.name).map fun package => package ++ "." ++ name).filter isKnown

def fromOnDemandImport? (name : String) : Option String :=
  ((scope.imports.filter (·.isOnDemand)).filterMap (·.qualify? name)).find? isKnown

/-- A single import decides; then the own package and the imported packages are
tried for a definition that exists. A name with a dot is full already. -/
def qualifyName (name : String) : String :=
  if Text.hasDot name then
    name
  else
    (fromSingleImport? scope name).getD
      ((fromPackage? isKnown scope name).getD
        ((fromOnDemandImport? isKnown scope name).getD name))

/-- The type parameter of the scope that a bare reference names. -/
def namedParameter? (reference : Reference) : Option String :=
  if reference.arguments.isEmpty && reference.typeArguments.isEmpty &&
      scope.hasTypeParameter reference.name then
    some reference.name
  else
    none

mutual
def qualify : Reference → Reference
  | ⟨name, arguments, typeArguments, span, resolved⟩ =>
      ⟨qualifyName isKnown scope name, arguments,
        qualifyTypeArguments typeArguments, span, resolved⟩

def qualifyTypeArguments : List TypeArgument → List TypeArgument
  | [] => []
  | ⟨name, .definition reference, span⟩ :: rest =>
      let value := match namedParameter? scope reference with
        | some parameter => .parameter parameter
        | none => .definition (qualify reference)
      ⟨name, value, span⟩ :: qualifyTypeArguments rest
  | ⟨name, .parameter parameter, span⟩ :: rest =>
      ⟨name, .parameter parameter, span⟩ :: qualifyTypeArguments rest
end

end Qualification

end Adl
