import Adl.Loading.Context
import Adl.Membrane.Controllers

namespace Adl

/-! Interfaces of a composite that are passed through its membrane. -/

namespace Definition

private def usesOnThis (name : String) (binding : Binding) : Bool :=
  (binding.client.isThis && binding.client.interface == name) ||
    (binding.server.isThis && binding.server.interface == name)

/-- The external interfaces that no controller implements and that are optional or
bound inside. -/
def delegatedInterfaces (definition : Definition) : List String :=
  (definition.interfaces.filter fun interface =>
    !definition.controllers.any (·.implementsExternal interface.name) &&
      (interface.isOptional ||
        definition.bindings.any (usesOnThis interface.name))).map (·.name)

/-- Adds the internal twin of an external interface, unless the name is taken. -/
def ensureInternal (definition : Definition) (name : String) : Definition :=
  if (definition.internalInterface? name).isSome then
    definition
  else
    match definition.interface? name with
    | some external =>
        { definition with
          internalInterfaces := definition.internalInterfaces ++ [external.dual] }
    | none => definition

def delegator (names : List String) : Controller :=
  names.foldl (fun controller name => (controller.external name).internal name)
    (.ofSource Membrane.delegatorSource)

def withDelegator (definition : Definition) (names : List String) :
    Except MergeConflict Definition := do
  let definition ← definition.upgrade .internalInterfaces
  let definition ← definition.upgrade .controllers
  let definition := names.foldl ensureInternal definition
  return { definition with controllers := definition.controllers ++ [delegator names] }

end Definition

/-- Gives a composite the internal interfaces and the delegator that it needs. -/
def delegateInterfaces (id : DefinitionId) : Loading Unit := do
  let definition ← Loading.definition id
  if definition.isComposite then
    match definition.delegatedInterfaces with
    | [] => return
    | names => Loading.replace id (← Step.ofExcept (definition.withDelegator names))

end Adl
