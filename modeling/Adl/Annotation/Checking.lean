import Adl.Annotation.Registry

namespace Adl

/-! Building the typed annotations of a definition from the nodes as written. -/

namespace AnnotationRegistry

/-- Builds the annotations of an element in order. A node is refused, with a
diagnostic, when it cannot be built, when its kind does not admit the element, or
when a node before it was accepted with the same kind. -/
def checkNodes (registry : AnnotationRegistry) (target : Target) :
    List Annotation → List AnnotationNode → Loading (List Annotation)
  | accepted, [] => return accepted
  | accepted, node :: rest =>
      match registry.build node with
      | .error error => do
          Loading.recordError .invalidAnnotationUse node.span error.message
          checkNodes registry target accepted rest
      | .ok built =>
          if !built.targets.contains target then do
            Loading.recordError .invalidAnnotationTarget node.span
              ("annotation '@" ++ built.kind ++ "' cannot be applied to " ++
                target.name)
            checkNodes registry target accepted rest
          else if accepted.any (·.kind == built.kind) then do
            Loading.recordError .duplicateAnnotationUse node.span
              ("duplicate annotation '@" ++ built.kind ++ "'")
            checkNodes registry target accepted rest
          else
            checkNodes registry target (accepted ++ [built]) rest

def checkElement (registry : AnnotationRegistry) (path : NodePath) :
    Revising Definition Unit := do
  let definition ← Drafting.draft
  match definition.annotationsAt? path with
  | none => return
  | some annotations =>
      let typed ← registry.checkNodes path.target [] annotations.nodes
      Drafting.modifyDraft fun definition =>
        definition.modifyAnnotationsAt path fun annotations => { annotations with typed }

def isAnnotated (definition : Definition) : Bool :=
  definition.nodePaths.any fun path =>
    (definition.annotationsAt? path).any fun annotations => !annotations.isEmpty

def checkDefinition (registry : AnnotationRegistry) (id : DefinitionId) :
    Loading Unit := do
  let definition ← Loading.definition id
  if isAnnotated definition then
    Loading.revise id (definition.nodePaths.forM (checkElement registry))

end AnnotationRegistry

end Adl
