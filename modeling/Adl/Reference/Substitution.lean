import Adl.Loading.Context

namespace Adl

/-! Copies of definitions in which parameters are replaced by values. The replacement
is simultaneous: a value that is put in is not looked at again. -/

abbrev ValueBindings := Table Value

namespace Value

def substitute (bindings : ValueBindings) (value : Value) : Value :=
  match value with
  | .reference parameter => (bindings.find? parameter).getD value
  | value => value

/-- Whether a value refers to a parameter that is bound. -/
def isBoundBy (bindings : ValueBindings) (value : Value) : Bool :=
  value.reference?.any bindings.contains

end Value

def Argument.substitute (bindings : ValueBindings) (argument : Argument) : Argument :=
  { argument with value := argument.value.substitute bindings }

namespace Reference

mutual
def substitute (bindings : ValueBindings) : Reference → Reference
  | ⟨name, arguments, typeArguments, span, resolved⟩ =>
      ⟨name, arguments.map (·.substitute bindings),
        substituteTypeArguments bindings typeArguments, span, resolved⟩

def substituteTypeArguments (bindings : ValueBindings) :
    List TypeArgument → List TypeArgument
  | [] => []
  | ⟨name, .definition reference, span⟩ :: rest =>
      ⟨name, .definition (reference.substitute bindings), span⟩ ::
        substituteTypeArguments bindings rest
  | ⟨name, .parameter parameter, span⟩ :: rest =>
      ⟨name, .parameter parameter, span⟩ :: substituteTypeArguments bindings rest
end

/-! Whether a bound parameter occurs among the arguments, at any depth. -/

mutual
def uses (bindings : ValueBindings) : Reference → Bool
  | ⟨_, arguments, typeArguments, _, _⟩ =>
      arguments.any (·.value.isBoundBy bindings) ||
        typeArgumentsUse bindings typeArguments

def typeArgumentsUse (bindings : ValueBindings) : List TypeArgument → Bool
  | [] => false
  | ⟨_, .definition reference, _⟩ :: rest =>
      reference.uses bindings || typeArgumentsUse bindings rest
  | ⟨_, .parameter _, _⟩ :: rest => typeArgumentsUse bindings rest
end

end Reference

/-- A sub-component whose reference changes has to be resolved again. -/
def Component.substitute (bindings : ValueBindings) (component : Component) : Component :=
  match component.definition with
  | some reference =>
      if reference.uses bindings then
        { component with
          definition := some (reference.substitute bindings).clearResolution
          resolved := none }
      else
        component
  | none => component

namespace Definition

/-- The name of a copy lists the bindings. -/
def substitutedName (base : String) (bindings : ValueBindings) : String :=
  base ++ "(" ++
    ",".intercalate (bindings.entries.map fun (name, value) => name ++ "=" ++ value.text) ++
    ")"

/-- The parameters that the values refer to, each once. -/
def forwardedParameters (bindings : ValueBindings) : List String :=
  appendNew [] (bindings.values.filterMap Value.reference?)

def substitute (definition : Definition) (name : String) (bindings : ValueBindings) :
    Definition :=
  let parameters := (forwardedParameters bindings).map (⟨·, .generated⟩)
  { definition with
    name
    decorations := { definition.decorations with
      substitutedFrom := some definition.name }
    parameters
    capabilities :=
      if parameters.isEmpty then definition.capabilities.erase .formalParameters
      else definition.capabilities
    attributes := definition.attributes.map fun declared =>
      { declared with value := declared.value.map (·.substitute bindings) }
    components := definition.components.map (·.substitute bindings) }

/-- The values that a reference gives to every parameter, if it does; references
among them count only where they are allowed. -/
def bindings? (definition : Definition) (reference : Reference) (allowReferences : Bool) :
    Option ValueBindings :=
  if definition.parameters.isEmpty || reference.arguments.isEmpty then
    none
  else
    definition.parameters.foldlM
      (fun bindings parameter => do
        let argument ← reference.arguments.find? (·.name == some parameter.name)
        if argument.value.isLiteral || allowReferences then
          return bindings.insert parameter.name argument.value
        else
          none)
      Table.empty

end Definition

/-! ## Loading copies -/

inductive Substitution where
  | notApplicable
  | substituted (id : DefinitionId)
  | failed

/-- Loads the copy of a target that the arguments of a reference ask for, after
registering it where it is not known yet. -/
def substituteValues (load : String → Loading DefinitionId) (reference : Reference)
    (target : DefinitionId) (allowReferences : Bool) : Loading Substitution := do
  let definition ← Loading.definition target
  match definition.bindings? reference allowReferences with
  | none => return .notApplicable
  | some bindings =>
      let name := Definition.substitutedName definition.name bindings
      if !(← Loading.context).isKnown name then
        let _ ← Loading.register name (definition.substitute name bindings)
      match ← Loading.orRecorded (load name) reference.span with
      | some id => return .substituted id
      | none => return .failed

end Adl
