import Adl.Reference.Resolution

namespace Adl

/-! Checks of what a definition declares: type parameters, interfaces, parameters and
attributes. -/

/-- The items whose key was seen before. -/
def repeatedBy {α : Type} (key : α → String) : List String → List α → List α
  | _, [] => []
  | seen, item :: rest =>
      if seen.contains (key item) then
        item :: repeatedBy key seen rest
      else
        repeatedBy key (key item :: seen) rest

/-! ## Type parameters -/

namespace TypeParameters

def checkConformance (resolve : Resolver) (id : DefinitionId) :
    Revising FormalTypeParameter Unit := do
  let parameter ← Drafting.draft
  match parameter.conformsTo with
  | none => return
  | some reference =>
      if reference.resolvedId?.isSome then
        return
      let found ← Drafting.onPart (fun _ => reference)
        (fun reference parameter => { parameter with conformsTo := some reference })
        (resolve (some id))
      match found with
      | none => return
      | some type =>
          if !(← Loading.definition type).isType then
            let reference := (← Drafting.draft).conformsTo.getD reference
            Loading.recordError .invalidTypeArgument reference.span
              ("'" ++ reference.name ++ "' cannot be the conformance type of '" ++
                parameter.name ++ "': it is not a type definition")

def checkPlaceholder (definition : Definition) (component : Component) :
    Loading Unit :=
  match component.typeParameter with
  | none => return
  | some parameter =>
      if definition.hasTypeParameter parameter then
        return
      else
        Loading.recordError .invalidSubComponent component.span
          ("sub-component '" ++ component.name ++
            "' refers to undeclared type parameter '" ++ parameter ++ "'")

def recordRepeated (definition : Definition) : Loading Unit :=
  (repeatedBy FormalTypeParameter.name [] definition.typeParameters).forM fun parameter =>
    Loading.recordError .duplicateName parameter.span
      ("duplicate type parameter '" ++ parameter.name ++ "'")

/-- Checks the type parameters of a definition and its uses of them. -/
def check (resolve : Resolver) (id : DefinitionId) : Loading Unit := do
  let definition ← Loading.definition id
  if definition.isGeneric || definition.components.any (·.typeParameter.isSome) then
    Loading.revise id do
      recordRepeated definition
      let _ ← Drafting.onPart (·.typeParameters)
        (fun typeParameters definition => { definition with typeParameters })
        (Drafting.each fun _ => checkConformance resolve id)
      definition.components.forM fun component => do
        checkPlaceholder (← Drafting.draft) component

end TypeParameters

/-! ## Interfaces and parameters -/

/-- What is wrong with interfaces, given the names of those before them. -/
def interfaceProblems : List String → List Interface → List Diagnostic
  | _, [] => []
  | seen, interface :: rest =>
      (if seen.contains interface.name then
        [.error .duplicateName interface.span
          ("duplicate interface name '" ++ interface.name ++ "'")]
      else []) ++
      (if interface.cardinality = .collection none then
        [.error .invalidInterface interface.span
          ("collection interface '" ++ interface.name ++ "' must declare its size")]
      else []) ++
      interfaceProblems (interface.name :: seen) rest

def checkInterfaces (id : DefinitionId) : Loading Unit := do
  Loading.recordAll (interfaceProblems [] (← Loading.definition id).interfaces)

def checkParameters (id : DefinitionId) : Loading Unit := do
  (repeatedBy FormalParameter.name [] (← Loading.definition id).parameters).forM
    fun parameter =>
      Loading.recordError .duplicateName parameter.span
        ("duplicate parameter name '" ++ parameter.name ++ "'")

/-! ## Attributes -/

namespace Attribute

def checkNumber (declared : Attribute) (type : ParameterType) (value : Int64) :
    Loading Unit :=
  if type = .string then
    Loading.recordError .invalidAttribute declared.span
      ("attribute '" ++ declared.name ++ "' of type string cannot take " ++ toString value.toInt)
  else if value < 0 && declared.typeName.toList.head? = some 'u' then
    Loading.warn .invalidAttribute declared.span
      ("unsigned attribute '" ++ declared.name ++ "' initialized with negative value " ++
        toString value.toInt)
  else
    return

def checkText (declared : Attribute) (type : ParameterType) (value : Value) :
    Loading Unit :=
  if type = .integer then
    Loading.recordError .invalidAttribute declared.span
      ("attribute '" ++ declared.name ++ "' of type " ++ declared.typeName ++
        " cannot take " ++ value.text)
  else
    return

def checkReference (owner : Definition) (declared : Attribute)
    (type : ParameterType) (parameter : String) : Loading Unit := do
  if !owner.hasParameter parameter then
    Loading.recordError .undefinedParameter declared.span
      ("attribute '" ++ declared.name ++ "' refers to undefined parameter '" ++
        parameter ++ "'")
  else
    match ← Loading.infer owner.name parameter type with
    | none => return
    | some inferred =>
        if inferred != type then
          Loading.recordError .incompatibleArgumentType declared.span
            ("parameter '" ++ parameter ++ "' is used as " ++ inferred.name ++
              " but attribute '" ++ declared.name ++ "' is " ++ type.name)

/-- Gives an attribute its value, or checks the value that it has. -/
def settle (owner : Definition) : Revising Attribute Unit := do
  let declared ← Drafting.draft
  let type := ParameterType.ofAttributeType declared.typeName
  match declared.value with
  | none =>
      Drafting.modifyDraft fun declared => { declared with value := some type.default }
  | some (.number value) => checkNumber declared type value
  | some (.reference parameter) => checkReference owner declared type parameter
  | some value => checkText declared type value

end Attribute

def settleAttributes (id : DefinitionId) : Loading Unit := do
  let definition ← Loading.definition id
  if !definition.attributes.isEmpty then
    Loading.revise id do
      let _ ← Drafting.onPart (·.attributes)
        (fun attributes definition => { definition with attributes })
        (Drafting.each fun _ => Attribute.settle definition)

end Adl
