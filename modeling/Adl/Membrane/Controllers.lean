import Adl.Definition.Merge

namespace Adl

/-! Interfaces that the membrane of a component provides for its control, and the
controllers that implement them. -/

namespace Membrane

/-- The interface that stands first in a membrane. -/
def componentInterface : String := "component"

/-- The controller that passes calls through a membrane. -/
def delegatorSource : String := "InterfaceDelegator"

/-- A control interface with its controller, and the code that all instances share. -/
structure Control where
  interface : String
  signature : String
  source : String
  shared : Option String

def lifeCycle : Control :=
  { interface := "lifeCycleController"
    signature := "fractal.api.LifeCycleController"
    source := "LifeCycleController"
    shared := some "/fractal/internal/LCCdelegate.c" }

def attributeControl : Control :=
  { interface := "attributeController"
    signature := "fractal.api.AttributeController"
    source := "AttributeController"
    shared := some "/fractal/internal/ACdelegate.c" }

def bindingControl : Control :=
  { interface := "bindingController"
    signature := "fractal.api.BindingController"
    source := "BindingController"
    shared := none }

def contentControl : Control :=
  { interface := "contentController"
    signature := "fractal.api.ContentController"
    source := "ContentController"
    shared := none }

end Membrane

namespace Definition

/-- Adds an interface that controllers implement, unless the name is taken. -/
def ensureControllerInterface (definition : Definition) (role : Role)
    (name signature : String) : Definition :=
  if (definition.interface? name).isSome then
    definition
  else
    let interface := { Interface.ofRole role name signature with isController := true }
    { definition with interfaces := definition.interfaces ++ [interface] }

/-- Adds a controller, unless one covers `name` already. -/
def ensureController (definition : Definition) (name : String)
    (controller : Controller) : Definition :=
  if definition.controllers.any (·.covers name) then
    definition
  else
    { definition with controllers := definition.controllers ++ [controller] }

def shareImplementation (definition : Definition) (path : Option String) : Definition :=
  match path with
  | none => definition
  | some path =>
      { definition with
        decorations := { definition.decorations with
          sharedImplementations :=
            appendNew definition.decorations.sharedImplementations [path] } }

/-- Adds a control interface and the controller that implements it. -/
def addControl (definition : Definition) (control : Membrane.Control) :
    Except MergeConflict Definition := do
  let definition ← definition.upgrade .interfaces
  let definition := definition.shareImplementation control.shared
  let definition :=
    definition.ensureControllerInterface .server control.interface control.signature
  let definition ← definition.upgrade .controllers
  return definition.ensureController control.interface
    ((Controller.ofSource control.source).external control.interface)

/-- Adds the interfaces by which a component makes copies of itself. -/
def addCloning (definition : Definition) : Except MergeConflict Definition := do
  let definition ← definition.upgrade .interfaces
  let definition :=
    definition.ensureControllerInterface .server "factory" "fractal.api.Factory"
  let definition :=
    definition.ensureControllerInterface .client "allocator" "memory.api.Allocator"
  let definition ← definition.upgrade .controllers
  return definition.ensureController "factory"
    (((Controller.ofSource "CloneableController").external "factory").external
      "allocator")

end Definition

end Adl
