import Adl.Definition.Basic

namespace Adl

/-! Structural merge. Lists are appended, sets and flags are united, and single
values must agree where both sides have one. -/

/-- Two sides of a merge that contradict each other. -/
structure MergeConflict where
  field : String
  left : String
  right : String
deriving DecidableEq, Repr

def MergeConflict.message (conflict : MergeConflict) : String :=
  "cannot merge `" ++ conflict.left ++ "` with `" ++ conflict.right ++
    "`: conflicting " ++ conflict.field

/-- Appends the items of `right` that are not yet present, each once. -/
def appendNew (left right : List String) : List String :=
  right.foldl (fun items item =>
    if items.contains item then items else items ++ [item]) left

namespace Decorations

def mergeOrigin (field : String) (left right : Option String) :
    Except MergeConflict (Option String) :=
  match left, right with
  | some left, some right =>
      if left = right then .ok (some left) else .error ⟨field, left, right⟩
  | some left, .none => .ok (some left)
  | .none, right => .ok right

def merge (left right : Decorations) : Except MergeConflict Decorations := do
  let templateOf ← mergeOrigin "template origin" left.templateOf right.templateOf
  let substitutedFrom ←
    mergeOrigin "substitution origin" left.substitutedFrom right.substitutedFrom
  return {
    extendsMerged := left.extendsMerged || right.extendsMerged
    singleton := left.singleton || right.singleton
    templateOf
    partiallyInstantiated :=
      left.partiallyInstantiated || right.partiallyInstantiated
    substitutedFrom
    sharedImplementations :=
      appendNew left.sharedImplementations right.sharedImplementations }

end Decorations

namespace Definition

/-- The name of a merge: an empty name takes the other. -/
def mergeName (left right : String) : Except MergeConflict String :=
  if left.isEmpty then .ok right
  else if right.isEmpty || left == right then .ok left
  else .error ⟨"name", left, right⟩

def merge (base overlay : Definition) : Except MergeConflict Definition := do
  let name ← mergeName base.name overlay.name
  let decorations ← base.decorations.merge overlay.decorations
  return {
    name
    span := base.span.orElse overlay.span
    capabilities := base.capabilities.union overlay.capabilities
    isAbstract := base.isAbstract || overlay.isAbstract
    imports := base.imports ++ overlay.imports
    parents := base.parents ++ overlay.parents
    parameters := base.parameters ++ overlay.parameters
    typeParameters := base.typeParameters ++ overlay.typeParameters
    interfaces := base.interfaces ++ overlay.interfaces
    internalInterfaces := base.internalInterfaces ++ overlay.internalInterfaces
    attributes := base.attributes ++ overlay.attributes
    components := base.components ++ overlay.components
    bindings := base.bindings ++ overlay.bindings
    sources := base.sources ++ overlay.sources
    controllers := base.controllers ++ overlay.controllers
    annotations := base.annotations.union overlay.annotations
    decorations }

/-- Adds a capability by merging with a definition that has nothing else. -/
def upgrade (definition : Definition) (capability : Capability) :
    Except MergeConflict Definition :=
  if definition.has capability then
    .ok definition
  else
    definition.merge (bare definition.name (.single capability))

end Definition

end Adl
