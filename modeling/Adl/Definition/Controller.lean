import Adl.Definition.Annotation

namespace Adl

/-! Implementation sources, and the controllers of a membrane: the code that
implements interfaces which no sub-component provides. -/

structure Source where
  path : String
  span : Span
  annotations : Annotations
deriving DecidableEq

namespace Source

def ofPath (path : String) : Source :=
  ⟨path, .generated, .none⟩

def withoutTyped (source : Source) : Source :=
  { source with annotations := source.annotations.withoutTyped }

end Source

structure ControllerInterface where
  name : String
  isInternal : Bool
deriving DecidableEq, Repr

structure Controller where
  interfaces : List ControllerInterface
  sources : List Source
  span : Span
deriving DecidableEq

namespace Controller

def ofSource (path : String) : Controller :=
  ⟨[], [.ofPath path], .generated⟩

def external (controller : Controller) (name : String) : Controller :=
  { controller with interfaces := controller.interfaces ++ [⟨name, false⟩] }

def internal (controller : Controller) (name : String) : Controller :=
  { controller with interfaces := controller.interfaces ++ [⟨name, true⟩] }

def implementsExternal (controller : Controller) (name : String) : Bool :=
  controller.interfaces.any fun interface =>
    !interface.isInternal && interface.name == name

def implementsInternal (controller : Controller) (name : String) : Bool :=
  controller.interfaces.any fun interface =>
    interface.isInternal && interface.name == name

/-- Whether the controller names an interface, on either side. -/
def covers (controller : Controller) (name : String) : Bool :=
  controller.interfaces.any (·.name == name)

def withoutTyped (controller : Controller) : Controller :=
  { controller with sources := controller.sources.map Source.withoutTyped }

/-- Equality up to typed annotations. -/
def isSame (left right : Controller) : Bool :=
  left.withoutTyped == right.withoutTyped

end Controller

end Adl
