import Adl.Binding.Compatibility
import Adl.Binding.Endpoint

namespace Adl

/-! The check of the bindings of a definition. -/

namespace Binding

variable (definition : Definition) (context : Context) (binding : Binding)

/-- The interface at an end, nothing where it cannot be known. -/
def lookup (endpoint : Endpoint) : Except Diagnostic (Option Interface) :=
  match definition.endpointInterface context endpoint with
  | .found interface => .ok (some interface)
  | .unresolved => .ok none
  | .unknownComponent =>
      .error (.error .invalidBinding binding.span
        ("'" ++ definition.name ++ "' has no sub-component named '" ++
          endpoint.component ++ "'"))
  | .unknownInterface =>
      .error (.error .invalidBinding binding.span
        ("no interface named '" ++ endpoint.interface ++ "' on '" ++
          endpoint.component ++ "'"))

/-- Whether the binding needs a cast, or everything that is wrong with it. -/
def check (extends? : String → String → Bool) : Except (List Diagnostic) Bool :=
  match lookup definition context binding binding.client,
      lookup definition context binding binding.server with
  | .error client, .error server => .error [client, server]
  | .error client, .ok _ => .error [client]
  | .ok _, .error server => .error [server]
  | .ok (some client), .ok (some server) =>
      Compatibility.check
        ⟨binding.client.text, client, binding.client.index⟩
        ⟨binding.server.text, server, binding.server.index⟩
        extends? binding.span
  | .ok _, .ok _ => .ok false

end Binding

/-- Notes the result of a check on the binding, or reports it. -/
def settleBinding (result : Except (List Diagnostic) Bool) :
    Revising Binding Unit :=
  match result with
  | .ok castRequired => Drafting.modifyDraft fun binding => { binding with castRequired }
  | .error diagnostics => Loading.recordAll diagnostics

/-- Checks each binding against the definition as it was before any was settled. -/
def checkBindings (extends? : String → String → Bool) : Revising Definition Unit := do
  let definition ← Drafting.draft
  let context ← Loading.context
  let checkOne : Revising Binding Unit := do
    let binding ← Drafting.draft
    settleBinding (binding.check definition context extends?)
  let _ ← Drafting.onPart (·.bindings)
    (fun bindings definition => { definition with bindings }) (Drafting.each fun _ => checkOne)

end Adl
