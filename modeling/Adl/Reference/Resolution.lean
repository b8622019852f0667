import Adl.Binding.Compatibility
import Adl.FrontEnd
import Adl.Reference.Arguments
import Adl.Reference.Qualification
import Adl.Reference.Substitution
import Adl.Reference.TypeArguments
import Adl.Template.Instance

namespace Adl

/-! From references to definitions. Resolution is built up in layers, each of which
prepares the reference for the layers inside it or completes their answer. -/

/-- Finds what a reference designates for the definition that holds it. The reference
is a draft: it comes back with full names, named arguments and the decoration of what
was found. -/
abbrev Resolver := Option DefinitionId → Revising Reference (Option DefinitionId)

inductive ResolutionLayer where
  | arguments
  | instances
  | hoisting
  | substitution
  | imports
  | cache
deriving DecidableEq, Repr

namespace Resolver

def decorate (name : String) (id : DefinitionId) : Revising Reference Unit :=
  Drafting.modifyDraft fun reference =>
    { reference with resolved := some ⟨name, some id⟩ }

def scopeDefinition? (scope : Option DefinitionId) (context : Context) :
    Option Definition :=
  scope.map context.definition

/-- Loads the definition of the given name. -/
def named (load : String → Loading DefinitionId) : Resolver := fun _ => do
  let reference ← Drafting.draft
  match ← Loading.orRecorded (load reference.name) reference.span with
  | some id =>
      decorate reference.name id
      return some id
  | none => return none

/-- Checks the value arguments against the parameters of the target. -/
def withArguments (inner : Resolver) : Resolver := fun scope => do
  match ← inner scope with
  | none => return none
  | some target =>
      let context ← Loading.context
      if ← Arguments.check (context.definition target) (scopeDefinition? scope context) then
        return some target
      else
        return none

/-! ## Instances -/

def recordInvalid (span : Span) (message : String) : Loading Unit :=
  Loading.recordError .invalidTypeArgument span message

/-- Whether a definition may be bound to a type parameter. -/
def admits (frontEnd : FrontEnd) (generic : DefinitionId) (parameter : String)
    (scope : Option DefinitionId) (span : Span) (id : DefinitionId) : Loading Bool := do
  let context ← Loading.context
  let value := context.definition id
  if scope.isSome && (value.isType || value.isAbstract) then
    recordInvalid span
      ("'" ++ value.name ++ "' cannot be used as a type argument: the definition is " ++
        (if value.isType then "a type" else "abstract"))
    return false
  else
    let conformance := ((context.definition generic).typeParameter? parameter).bind
      fun parameter => parameter.conformsTo.bind (·.resolvedId?)
    match conformance with
    | none => return true
    | some type =>
        match Conformance.problems frontEnd.signatureExtends value
            (context.definition type) span with
        | [] => return true
        | problems =>
            Loading.recordAll problems
            return false

/-- A bare reference names the definition itself: its value arguments, if it had any,
belong to the instance by now. -/
def bindReference (load : String → Loading DefinitionId) (nested : Resolver)
    (scope : Option DefinitionId) : Revising Reference (Option DefinitionId) := do
  let reference ← Drafting.draft
  if reference.arguments.isEmpty && reference.typeArguments.isEmpty then
    named load scope
  else
    nested scope

/-- What a type argument binds its parameter to. -/
def bind (frontEnd : FrontEnd) (load : String → Loading DefinitionId)
    (nested : Resolver) (scope : Option DefinitionId) (generic : DefinitionId)
    (parameter : String) : Revising TypeArgument (Option TypeBinding) := do
  let argument ← Drafting.draft
  match argument.value with
  | .parameter name =>
      let context ← Loading.context
      if (scopeDefinition? scope context).any (·.hasTypeParameter name) then
        return some (.parameter name)
      else
        recordInvalid argument.span ("undefined type parameter '" ++ name ++ "'")
        return none
  | .definition reference =>
      let found ← Drafting.onPart (fun _ => reference)
        (fun reference argument => { argument with value := .definition reference })
        (bindReference load nested scope)
      match found with
      | none => return none
      | some id =>
          if ← admits frontEnd generic parameter scope argument.span id then
            return some (.definition id)
          else
            return none

def atTypeArgument {α : Type} (position : Nat)
    (step : Revising TypeArgument (Option α)) : Revising Reference (Option α) := do
  match (← Drafting.draft).typeArguments[position]? with
  | none => return none
  | some argument =>
      Drafting.onPart (fun _ => argument)
        (fun argument reference =>
          { reference with typeArguments := reference.typeArguments.set position argument })
        step

/-- Binds each parameter in turn, also after one that could not be bound. -/
def bindAll (step : String → Revising TypeArgument (Option TypeBinding)) :
    List (String × Nat) → TypeBindings → Revising Reference (Option TypeBindings)
  | [], bindings => return some bindings
  | (parameter, position) :: rest, bindings => do
      match ← atTypeArgument position (step parameter) with
      | some binding => bindAll step rest (bindings.insert parameter binding)
      | none =>
          let _ ← bindAll step rest bindings
          return none

/-- Puts an instance in the place of a generic definition. -/
def withInstances (frontEnd : FrontEnd) (load : String → Loading DefinitionId)
    (nested inner : Resolver) : Resolver := fun scope => do
  match ← inner scope with
  | none => return none
  | some generic =>
      let definition ← Loading.definition generic
      let reference ← Drafting.draft
      if !definition.isGeneric && reference.typeArguments.isEmpty then
        return some generic
      else
        let parameters := definition.typeParameters.map (·.name)
        match ← TypeArguments.positions reference definition.name parameters with
        | none => return none
        | some positions =>
            match ← bindAll (bind frontEnd load nested scope generic) positions .empty with
            | none => return none
            | some bindings =>
                let request : InstanceRequest := ⟨generic, bindings⟩
                match ← Loading.orRecorded (request.load frontEnd.registry load)
                    reference.span with
                | none => return none
                | some id =>
                    decorate (← Loading.definition id).name id
                    return some id

/-! ## Hoisting -/

/-- Loads a definition for a look at it; a failure is left for others to report. -/
def peek (load : String → Loading DefinitionId) (name : String) :
    Loading (Option Definition) := do
  match ← (load name).outcome with
  | .ok id => return some (← Loading.definition id)
  | .error (.fatal _) => return none
  | .error error => Step.fail error

/-- The parameters that the arguments of a type argument are for. -/
def argumentNames? (load : String → Loading DefinitionId) (reference : Reference) :
    Loading (Option (List String)) := do
  if reference.hasNamedArguments then
    return some (reference.arguments.filterMap (·.name))
  else if reference.arguments.any (·.name.isSome) then
    return none
  else
    match ← peek load reference.name with
    | none => return none
    | some target =>
        if target.parameters.length = reference.arguments.length then
          return some (target.parameters.map (·.name))
        else
          return none

def hoistedArgument (typeParameter : String) (name : String)
    (argument : Argument) : Argument :=
  { argument with name := some (Hoisted.name typeParameter name) }

/-- Takes the value arguments out of a type argument. -/
def takeArguments (load : String → Loading DefinitionId) (parameters : List String)
    (position : Nat) : Revising TypeArgument (List Argument) := do
  let argument ← Drafting.draft
  match argument.value, argument.name.or parameters[position]? with
  | .definition reference, some parameter =>
      if reference.arguments.isEmpty then
        return []
      else
        match ← argumentNames? load reference with
        | none => return []
        | some names =>
            Drafting.modifyDraft fun argument =>
              { argument with value := .definition { reference with arguments := [] } }
            return List.zipWith (hoistedArgument parameter) names reference.arguments
  | _, _ => return []

def hoist (load : String → Loading DefinitionId) : Revising Reference Unit := do
  match ← peek load (← Drafting.draft).name with
  | none => return
  | some generic =>
      let parameters := generic.typeParameters.map (·.name)
      let hoisted ← Drafting.onPart (·.typeArguments)
        (fun typeArguments reference => { reference with typeArguments })
        (Drafting.each (takeArguments load parameters))
      Drafting.modifyDraft fun reference =>
        { reference with arguments := reference.arguments ++ hoisted.flatten }

def hasValueArguments (argument : TypeArgument) : Bool :=
  match argument.value with
  | .definition reference => !reference.arguments.isEmpty
  | .parameter _ => false

/-- Moves the value arguments of type arguments to the reference itself, as arguments
for the parameters that an instance takes over. -/
def withHoisting (load : String → Loading DefinitionId) (inner : Resolver) : Resolver :=
  fun scope => do
    if (← Drafting.draft).typeArguments.any hasValueArguments then
      hoist load
    inner scope

/-! ## Copies, names and the cache -/

/-- Puts a copy with replaced parameters in the place of the target. -/
def withSubstitution (load : String → Loading DefinitionId) (inner : Resolver) :
    Resolver := fun scope => do
  match ← inner scope with
  | none => return none
  | some target =>
      match ← substituteValues load (← Drafting.draft) target false with
      | .notApplicable => return some target
      | .failed => return none
      | .substituted id =>
          decorate (← Loading.definition id).name id
          return some id

/-- Gives the names in the reference their full form. -/
def withImports (frontEnd : FrontEnd) (inner : Resolver) : Resolver := fun scope => do
  match scope with
  | none => inner scope
  | some id =>
      let context ← Loading.context
      Drafting.modifyDraft
        (Qualification.qualify (frontEnd.definitionExists context) (context.definition id))
      inner scope

/-- Under which a reference in a scope is remembered. -/
def cacheKey (reference : Reference) (scope : Option Definition) : String :=
  (scope.map (·.name)).getD "" ++ "|" ++ reference.text

/-- Remembers what references were resolved to. -/
def withCache (inner : Resolver) : Resolver := fun scope => do
  let context ← Loading.context
  let reference ← Drafting.draft
  let key := cacheKey reference (scopeDefinition? scope context)
  match context.references.find? key with
  | some id =>
      decorate (context.definition id).name id
      return some id
  | none =>
      match ← inner scope with
      | none => return none
      | some id =>
          Loading.update fun context =>
            { context with references := context.references.insert key id }
          return some id

/-! ## The layers together -/

/-- Resolution by the given layers, the innermost first. `nested` resolves type
arguments that have arguments of their own. -/
def ofLayers (frontEnd : FrontEnd) (load : String → Loading DefinitionId)
    (nested : Resolver) (layers : List ResolutionLayer) : Resolver :=
  layers.foldl
    (fun inner layer =>
      match layer with
      | .arguments => withArguments inner
      | .instances => withInstances frontEnd load nested inner
      | .hoisting => withHoisting load inner
      | .substitution => withSubstitution load inner
      | .imports => withImports frontEnd inner
      | .cache => withCache inner)
    (named load)

def layers : List ResolutionLayer :=
  [.arguments, .instances, .hoisting, .substitution, .imports, .cache]

/-- Full resolution of references whose type arguments are nested no deeper than
given. At depth zero no type argument has arguments of its own. -/
def nestedTo (frontEnd : FrontEnd) (load : String → Loading DefinitionId) :
    Nat → Resolver
  | 0 => ofLayers frontEnd load (fun _ => return none) layers
  | depth + 1 => ofLayers frontEnd load (nestedTo frontEnd load depth) layers

/-- Full resolution. No layer nests the type arguments of a reference deeper than they
were. -/
def full (frontEnd : FrontEnd) (load : String → Loading DefinitionId) : Resolver :=
  fun scope => do
    nestedTo frontEnd load (← Drafting.draft).nesting scope

end Resolver

end Adl
