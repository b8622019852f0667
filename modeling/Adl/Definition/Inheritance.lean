import Adl.Annotation.Predefined

namespace Adl

/-! What a definition takes over from one that it extends. Inherited elements come
before the definition's own. -/

namespace Inheritance

/-- Why a definition of one kind cannot extend one of another. -/
def kindViolation? (child parent : DefinitionKind) : Option String :=
  match child, parent with
  | .type, .primitive => some "a type cannot extend a primitive"
  | .type, .composite => some "a type cannot extend a composite"
  | .primitive, .composite => some "a primitive cannot extend a composite"
  | .composite, .primitive => some "a composite cannot extend a primitive"
  | .type, .type | .primitive, .type | .primitive, .primitive
  | .composite, .type | .composite, .composite => none

/-- A parent without what belongs to it alone. -/
def inheritable (parent : Definition) : Definition :=
  { parent with
    imports := []
    parameters := []
    typeParameters := []
    parents := []
    annotations := parent.annotations.inherited }

private def overridesNothing (kind name : String) (span : Span) : Diagnostic :=
  .error .invalidOverride span
    (kind ++ " '" ++ name ++ "' is marked @Override but overrides nothing")

private def isMarked (annotations : Annotations) : Bool :=
  annotations.has Annotation.overrideKind

/-- Whether two bindings start from the same interface. -/
def sameClient (left right : Binding) : Bool :=
  left.client.component == right.client.component &&
    left.client.interface == right.client.interface

section Problems

variable (child parent : Definition)

/-! Elements that are marked to replace an inherited one where there is none. -/

def interfaceOverrides : List Diagnostic :=
  (child.interfaces.filter fun own =>
    isMarked own.annotations && (parent.interface? own.name).isNone).map
      fun own => overridesNothing "interface" own.name own.span

def attributeOverrides : List Diagnostic :=
  (child.attributes.filter fun own =>
    isMarked own.annotations && (parent.attribute? own.name).isNone).map
      fun own => overridesNothing "attribute" own.name own.span

def componentOverrides : List Diagnostic :=
  (child.components.filter fun own =>
    isMarked own.annotations && (parent.component? own.name).isNone).map
      fun own => overridesNothing "sub-component" own.name own.span

def bindingOverrides : List Diagnostic :=
  (child.bindings.filter fun own =>
    isMarked own.annotations && !parent.bindings.any (sameClient own)).map
      fun own => overridesNothing "binding" own.client.text own.span

def sourceOverrides : List Diagnostic :=
  (child.sources.filter fun own =>
    isMarked own.annotations && !parent.sources.any (·.path == own.path)).map
      fun own => overridesNothing "source" own.path own.span

/-! Elements that replace an inherited one but may not. -/

def interfaceConflicts : List Diagnostic :=
  parent.interfaces.filterMap fun inherited => do
    let own ← child.interface? inherited.name
    if own.isSame inherited then
      none
    else
      return (Diagnostic.error .invalidOverride own.span
        ("interface '" ++ own.name ++ "' overrides an inherited interface")).withLabel
          inherited.span "inherited interface declared here"

def attributeConflicts : List Diagnostic :=
  parent.attributes.filterMap fun inherited => do
    let own ← child.attribute? inherited.name
    if own.typeName = inherited.typeName then
      none
    else
      return (Diagnostic.error .invalidOverride own.span
        ("attribute '" ++ own.name ++ "' changes the inherited type '" ++
          inherited.typeName ++ "' to '" ++ own.typeName ++ "'")).withLabel
            inherited.span "inherited attribute declared here"

/-- Everything that is wrong, the markers only where they are checked. -/
def problems (checksMarkers : Bool) : List Diagnostic :=
  let marked (diagnostics : List Diagnostic) := if checksMarkers then diagnostics else []
  marked (interfaceOverrides child parent) ++ interfaceConflicts child parent ++
    marked (attributeOverrides child parent) ++ attributeConflicts child parent ++
    marked (componentOverrides child parent) ++ marked (bindingOverrides child parent) ++
    marked (sourceOverrides child parent)

end Problems

/-- The child with what it takes over from the parent. -/
def merged (child parent : Definition) : Definition :=
  { child with
    capabilities := child.capabilities.union parent.capabilities
    interfaces :=
      (parent.interfaces.filter fun inherited =>
        (child.interface? inherited.name).isNone) ++ child.interfaces
    internalInterfaces :=
      (parent.internalInterfaces.filter fun inherited =>
        (child.internalInterface? inherited.name).isNone) ++ child.internalInterfaces
    attributes :=
      (parent.attributes.filter fun inherited =>
        (child.attribute? inherited.name).isNone) ++ child.attributes
    components :=
      (parent.components.filter fun inherited =>
        (child.component? inherited.name).isNone) ++ child.components
    bindings :=
      (parent.bindings.filter fun inherited =>
        !child.bindings.any (sameClient inherited)) ++ child.bindings
    sources :=
      (parent.sources.filter fun inherited =>
        !child.sources.any (·.path == inherited.path)) ++ child.sources
    controllers :=
      (parent.controllers.filter fun inherited =>
        !child.controllers.any (·.isSame inherited)) ++ child.controllers
    annotations := child.annotations.union parent.annotations
    decorations := { child.decorations with
      sharedImplementations :=
        appendNew child.decorations.sharedImplementations
          parent.decorations.sharedImplementations } }

/-- Reports what is wrong and gives the child with what it takes over. -/
def inherit (checksMarkers : Bool) (child parent : Definition) : Loading Definition := do
  Loading.recordAll (problems child parent checksMarkers)
  return merged child parent

end Inheritance

end Adl
