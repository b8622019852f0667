import Adl.Definition.Value
import Adl.Foundation.Span
import Adl.Text.Dotted

namespace Adl

/-! References to definitions, with value arguments and type arguments, and the
declarations that they are matched against. -/

/-- The position of a definition in the arena of a compilation. -/
abbrev DefinitionId := Nat

/-- What a reference was found to designate. The position holds only for the
arena in which it was found; the name outlives it. -/
structure Resolved where
  name : String
  id : Option DefinitionId
deriving DecidableEq, Repr

structure Argument where
  name : Option String
  value : Value
  span : Span
deriving DecidableEq, Repr

mutual
structure Reference where
  name : String
  arguments : List Argument
  typeArguments : List TypeArgument
  span : Span
  resolved : Option Resolved

structure TypeArgument where
  name : Option String
  value : TypeArgumentValue
  span : Span

inductive TypeArgumentValue where
  | definition (reference : Reference)
  | parameter (name : String)
end

instance : Inhabited Reference := ⟨"", [], [], .generated, none⟩

namespace Argument

def withName (argument : Argument) (name : String) : Argument :=
  { argument with name := some name }

def text (argument : Argument) : String :=
  match argument.name with
  | some name => name ++ "=" ++ argument.value.text
  | none => argument.value.text

def listText (arguments : List Argument) : String :=
  ", ".intercalate (arguments.map text)

end Argument

namespace Reference

def ofName (name : String) : Reference :=
  ⟨name, [], [], .generated, none⟩

def resolvedId? (reference : Reference) : Option DefinitionId :=
  reference.resolved.bind (·.id)

/-- Whether no argument is given by position alone. -/
def hasNamedArguments (reference : Reference) : Bool :=
  reference.arguments.all (·.name.isSome)

/-! The printed form: type arguments in angle brackets, then value arguments in
parentheses, each pair of brackets only around something. -/

mutual
def text : Reference → String
  | ⟨name, arguments, typeArguments, _, _⟩ =>
      let types :=
        if typeArguments.isEmpty then ""
        else "<" ++ ", ".intercalate (typeArgumentTexts typeArguments) ++ ">"
      let values :=
        if arguments.isEmpty then ""
        else "(" ++ Argument.listText arguments ++ ")"
      name ++ types ++ values

def typeArgumentTexts : List TypeArgument → List String
  | [] => []
  | ⟨name, .definition reference, _⟩ :: rest =>
      (label name ++ reference.text) :: typeArgumentTexts rest
  | ⟨name, .parameter parameter, _⟩ :: rest =>
      (label name ++ parameter) :: typeArgumentTexts rest

def label : Option String → String
  | some name => name ++ ": "
  | none => ""
end

/-! Forgetting what was resolved, at every depth. -/

mutual
def clearResolution : Reference → Reference
  | ⟨name, arguments, typeArguments, span, _⟩ =>
      ⟨name, arguments, clearTypeArguments typeArguments, span, none⟩

def clearTypeArguments : List TypeArgument → List TypeArgument
  | [] => []
  | ⟨name, .definition reference, span⟩ :: rest =>
      ⟨name, .definition reference.clearResolution, span⟩ :: clearTypeArguments rest
  | ⟨name, .parameter parameter, span⟩ :: rest =>
      ⟨name, .parameter parameter, span⟩ :: clearTypeArguments rest
end

/-! How deeply definitions are nested in the type arguments. -/

mutual
def nesting : Reference → Nat
  | ⟨_, _, typeArguments, _, _⟩ => typeArgumentNesting typeArguments

def typeArgumentNesting : List TypeArgument → Nat
  | [] => 0
  | ⟨_, .definition reference, _⟩ :: rest =>
      max (reference.nesting + 1) (typeArgumentNesting rest)
  | ⟨_, .parameter _, _⟩ :: rest => typeArgumentNesting rest
end

end Reference

/-! ## Declarations -/

structure FormalParameter where
  name : String
  span : Span
deriving DecidableEq, Repr

/-- A type parameter, with the type that its arguments must conform to. -/
structure FormalTypeParameter where
  name : String
  conformsTo : Option Reference
  span : Span

/-- An import of one name, or of a whole package where the name is `*`. -/
structure Import where
  package : String
  simpleName : String
  span : Span
deriving DecidableEq, Repr

namespace Import

def ofPath (path : String) : Import :=
  match Text.splitLastDot? path.toList with
  | some (package, name) => ⟨String.ofList package, String.ofList name, .generated⟩
  | none => ⟨"", path, .generated⟩

def isOnDemand (declaration : Import) : Bool :=
  declaration.simpleName == "*"

/-- The full name that this import offers for `simple`. -/
def qualify? (declaration : Import) (simple : String) : Option String :=
  if declaration.isOnDemand || declaration.simpleName == simple then
    some (declaration.package ++ "." ++ simple)
  else
    none

end Import

end Adl
