import Adl.Annotation.Registry

namespace Adl

/-! Running the processors of typed annotations. Each processor sees the definition
that the one before it left; the elements and annotations to visit are those of the
definition at the time when their turn comes. -/

namespace AnnotationRegistry

variable (registry : AnnotationRegistry) (phase : Phase)

def runProcessor (path : NodePath) (definition : Definition) (built : Annotation) :
    Loading Definition := do
  match registry.processor? built.kind with
  | none => Step.fail (.internal (.missingProcessor built.kind))
  | some processor =>
      return (← processor built path definition phase).getD definition

def due (annotations : Annotations) : List Annotation :=
  annotations.typed.filter (·.phases.contains phase)

def processElement (definition : Definition) (path : NodePath) :
    Loading Definition :=
  let annotations := (definition.annotationsAt? path).getD .none
  (due phase annotations).foldlM (registry.runProcessor phase path) definition

def processDefinition (definition : Definition) : Loading Definition :=
  definition.nodePaths.foldlM (processElement registry phase) definition

def processSubComponent (definition : Definition) (index : Nat) :
    Loading Definition := do
  match definition.components[index]?.bind (·.resolvedId?) with
  | none => return definition
  | some id =>
      let annotations := (← Loading.definition id).annotations
      (due phase annotations).foldlM (registry.runProcessor phase (.component index))
        definition

/-- Runs, for the listed sub-components, the processors of the annotations of their
definitions. -/
def processSubComponents (definition : Definition) (indices : List Nat) :
    Loading Definition :=
  indices.foldlM (processSubComponent registry phase) definition

def isDue (definition : Definition) : Bool :=
  definition.nodePaths.any fun path =>
    (definition.annotationsAt? path).any fun annotations =>
      !(due phase annotations).isEmpty

/-- Processes a stored definition if any of its annotations asks for the phase. -/
def processStored (id : DefinitionId) : Loading Unit := do
  let definition ← Loading.definition id
  if isDue phase definition then
    Loading.replace id (← registry.processDefinition phase definition)

/-- The sub-components whose definitions carry an annotation for the phase. -/
def dueComponents (context : Context) (definition : Definition) : List Nat :=
  (List.range definition.components.length).filter fun index =>
    match definition.components[index]?.bind (·.resolvedId?) with
    | some id => !(due phase (context.definition id).annotations).isEmpty
    | none => false

def processStoredSubComponents (id : DefinitionId) : Loading Unit := do
  let definition ← Loading.definition id
  match dueComponents .onSubComponent (← Loading.context) definition with
  | [] => return
  | indices =>
      Loading.replace id
        (← registry.processSubComponents .onSubComponent definition indices)

end AnnotationRegistry

end Adl
