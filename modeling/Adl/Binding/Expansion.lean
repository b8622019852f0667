import Adl.Binding.Endpoint

namespace Adl

/-! Bindings between whole collections stand for one binding per element. -/

namespace Definition

/-- How many bindings a binding stands for, if it is one between collections. A
mandatory client that is too large is left for the check to report. -/
def expansion? (definition : Definition) (context : Context) (binding : Binding) :
    Option Nat :=
  if binding.client.index.isSome || binding.server.index.isSome then
    none
  else
    match definition.endpointInterface context binding.client,
        definition.endpointInterface context binding.server with
    | .found client, .found server =>
        if client.isCollection && server.isCollection then
          match client.elementCount?, server.elementCount? with
          | some emitted, some received =>
              if client.isMandatory && received < emitted then none
              else some (min emitted received)
          | _, _ => none
        else
          none
    | _, _ => none

def expandBinding (definition : Definition) (context : Context) (binding : Binding) :
    List Binding :=
  match definition.expansion? context binding with
  | some count =>
      ((List.range count).map UInt32.ofNat).map fun index =>
        { binding with
          client := binding.client.atIndex index
          server := binding.server.atIndex index }
  | none => [binding]

def expandedBindings (definition : Definition) (context : Context) : List Binding :=
  definition.bindings.flatMap (definition.expandBinding context)

end Definition

/-! ## Duplicates -/

namespace Binding

def duplicateReport (binding : Binding) (first : Span) : Diagnostic :=
  (Diagnostic.error .duplicateBinding binding.span
    ("interface '" ++ binding.client.text ++ "' is bound more than once")).withLabel
      first "first bound here"

/-- Keeps the first binding of each client end and reports the others. -/
def keepFirst : Table Span → List Binding → Loading (List Binding)
  | _, [] => return []
  | firsts, binding :: rest =>
      match firsts.find? binding.id with
      | some first => do
          Loading.record (binding.duplicateReport first)
          keepFirst firsts rest
      | none => do
          return binding :: (← keepFirst (firsts.insert binding.id binding.span) rest)

end Binding

/-- Expands the bindings and keeps one for each client end. -/
def normalizeBindings : Revising Definition Unit := do
  let definition ← Drafting.draft
  let context ← Loading.context
  let bindings ← Binding.keepFirst .empty (definition.expandedBindings context)
  Drafting.modifyDraft fun definition => { definition with bindings }

end Adl
