import Adl.Loading.Context
import Adl.Membrane.Controllers

namespace Adl

/-! Whether controllers, sources and interfaces of a definition fit together. -/

namespace Definition

def names (definition : Definition) (interface : ControllerInterface) : Bool :=
  if interface.isInternal then
    (definition.internalInterface? interface.name).isSome
  else
    (definition.interface? interface.name).isSome

def unknownReport (definition : Definition) (controller : Controller)
    (interface : ControllerInterface) : Diagnostic :=
  .error .invalidController (controller.span.orElse definition.span)
    ("controller of '" ++ definition.name ++ "' refers to unknown " ++
      (if interface.isInternal then "internal" else "external") ++ " interface '" ++
      interface.name ++ "'")

/-- A controller that names an interface which does not exist. -/
def unknownInterface? (definition : Definition) : Option Diagnostic :=
  definition.controllers.findSome? fun controller =>
    (controller.interfaces.find? fun interface => !definition.names interface).map
      (definition.unknownReport controller)

/-- An internal interface that no controller names, with labels on the others. -/
def unusedInternal? (definition : Definition) : Option Diagnostic :=
  let unused := definition.internalInterfaces.filter fun interface =>
    !definition.controllers.any (·.implementsInternal interface.name)
  match unused with
  | [] => none
  | first :: others =>
      some (others.foldl
        (fun diagnostic interface =>
          diagnostic.withLabel interface.span
            ("'" ++ interface.name ++ "' is not used either"))
        (.error .invalidController first.span
          ("internal interface '" ++ first.name ++ "' is not used by any controller")))

/-- The external interfaces of a concrete definition without sources that no
controller implements. -/
def unimplemented (definition : Definition) : List String :=
  if definition.isAbstract || definition.isType || !definition.sources.isEmpty then
    []
  else
    (definition.interfaces.filter fun interface =>
      !definition.controllers.any (·.implementsExternal interface.name)).map (·.name)

def unimplemented? (definition : Definition) : Option Diagnostic :=
  match definition.unimplemented with
  | [] => none
  | missing =>
      some (.error .unimplementedInterface definition.span
        ("Interfaces : " ++ ", ".intercalate missing ++
          " are not implemented. Add a source file or a controller."))

/-- Puts the interface of the component itself first. -/
def componentInterfaceFirst (definition : Definition) : Definition :=
  let isComponent (interface : Interface) := interface.name == Membrane.componentInterface
  match definition.interfaces.find? isComponent with
  | some interface =>
      { definition with
        interfaces := interface :: definition.interfaces.eraseP isComponent }
  | none => definition

end Definition

/-- Fails on a membrane that is not complete, else orders it. -/
def completeMembrane (id : DefinitionId) : Loading Unit := do
  let definition ← Loading.definition id
  match definition.unknownInterface?.or
      (definition.unusedInternal?.or definition.unimplemented?) with
  | some diagnostic => Step.fail (.fatal diagnostic)
  | none => Loading.replace id definition.componentInterfaceFirst

end Adl
