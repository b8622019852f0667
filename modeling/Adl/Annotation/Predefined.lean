import Adl.Annotation.Registry
import Adl.Membrane.Controllers

namespace Adl

/-! The predefined annotations. -/

namespace Annotation

def overrideKind : String := "Override"
def singletonKind : String := "Singleton"

/-- Marks an element that replaces an inherited one. -/
def override : Annotation :=
  { kind := overrideKind
    targets := .ofList [.interface, .attribute, .source, .component, .binding]
    phases := .empty
    isInherited := false
    directive := .mark }

/-- Marks a definition of which a program holds one instance. -/
def singleton : Annotation :=
  { kind := singletonKind
    targets := .single .definition
    phases := .ofList
      [.afterChecking, .onSubComponent, .afterTemplateInstantiate,
        .onTemplateSubComponent]
    isInherited := true
    directive := .singleton }

def control (kind : String) (directive : Directive) : Annotation :=
  { kind
    targets := .single .definition
    phases := .single .afterExtends
    isInherited := true
    directive }

def lifeCycleController : Annotation :=
  { control "LifeCycleController" .lifeCycle with
    phases := .ofList [.afterExtends, .onSubComponent] }

def attributeController (allowNone : Bool) : Annotation :=
  control "AttributeController" (.attributeControl allowNone)

def bindingController (allowNone : Bool) : Annotation :=
  control "BindingController" (.bindingControl allowNone)

def contentController : Annotation :=
  control "ContentController" .contentControl

def cloneable : Annotation :=
  control "Cloneable" .cloneable

def dump : Annotation :=
  { kind := "DumpAST"
    targets := .single .definition
    phases := .single .afterChecking
    isInherited := false
    directive := .mark }

end Annotation

/-! ## Singletons -/

namespace Singleton

def isSingleton (definition : Definition) : Bool :=
  definition.decorations.singleton ||
    definition.annotations.has Annotation.singletonKind

/-- Reports every sub-component that instantiates a singleton again. -/
def duplicates (context : Context) : Table String → List (Component × DefinitionId) →
    List Diagnostic
  | _, [] => []
  | firstUses, (component, id) :: rest =>
      let definition := context.definition id
      if !isSingleton definition then
        duplicates context firstUses rest
      else
        match firstUses.find? definition.name with
        | some first =>
            .error .invalidSingleton component.span
              ("sub-component '" ++ component.name ++ "' instantiates singleton '" ++
                definition.name ++ "' already instantiated by '" ++ first ++ "'") ::
              duplicates context firstUses rest
        | none =>
            duplicates context (firstUses.insert definition.name component.name) rest

/-- Decorates a singleton, after a look for a second instance of another. -/
def settle (definition : Definition) : Loading (Option Definition) := do
  Loading.recordAll
    (duplicates (← Loading.context) .empty definition.resolvedComponents)
  if definition.decorations.singleton then
    return none
  else
    return some { definition with
      decorations := { definition.decorations with singleton := true } }

def elementSpan (definition : Definition) : NodePath → Span
  | .component index => (definition.components[index]?.map (·.span)).getD definition.span
  | _ => definition.span

/-- A definition that holds a singleton becomes one. -/
def spread (definition : Definition) (node : NodePath) (announced : Bool) :
    Loading (Option Definition) := do
  if definition.annotations.has Annotation.singletonKind then
    return none
  if announced then
    Loading.warn .invalidSingleton (elementSpan definition node)
      ("sub-component '" ++ (definition.nodeName? node).getD "" ++
        "' is a singleton, so '" ++ definition.name ++ "' becomes a singleton too")
  return some { definition with
    annotations := definition.annotations.attach
      (.ofType Annotation.singletonKind) Annotation.singleton }

def process : Processor := fun _ node definition phase =>
  match phase with
  | .afterChecking | .afterTemplateInstantiate => settle definition
  | .onSubComponent => spread definition node true
  | .onTemplateSubComponent => spread definition node false
  | .afterParsing | .afterExtends => return none

end Singleton

/-! ## Controllers -/

namespace Control

def reject (definition : Definition) (built : Annotation)
    (reason : String) : Loading (Option Definition) := do
  Loading.recordError .invalidAnnotationUse definition.span
    ("'@" ++ built.kind ++ "' on '" ++ definition.name ++ "': " ++ reason)
  return none

def extended (result : Except MergeConflict Definition) :
    Loading (Option Definition) := do
  return some (← Step.ofExcept result)

/-- Notes on a sub-component that its definition has a life cycle. -/
def flagLifeCycle (definition : Definition) (node : NodePath) (phase : Phase) :
    Definition :=
  match phase, node with
  | .onSubComponent, .component index =>
      { definition with
        components := definition.components.modify index fun component =>
          { component with hasLifeCycleController := true } }
  | _, _ => definition

def process : Processor := fun built node definition phase =>
  match built.directive with
  | .lifeCycle =>
      extended ((flagLifeCycle definition node phase).addControl Membrane.lifeCycle)
  | .attributeControl allowNone =>
      if !allowNone && definition.attributes.isEmpty then
        reject definition built "the definition has no attribute"
      else
        extended (definition.addControl Membrane.attributeControl)
  | .bindingControl allowNone =>
      if !allowNone && !definition.interfaces.any (·.isClient) then
        reject definition built "the definition has no client interface"
      else
        extended (definition.addControl Membrane.bindingControl)
  | .contentControl =>
      if definition.isComposite then
        extended (definition.addControl Membrane.contentControl)
      else
        reject definition built "only composites have a content"
  | .cloneable => extended definition.addCloning
  | .mark | .singleton | .probe _ _ => return none

end Control

/-! ## The registry -/

namespace AnnotationRegistry

def plain (built : Annotation) (processor : Option Processor) :
    AnnotationDescriptor :=
  ⟨built.kind, [], fun _ => .ok built, processor⟩

def flagged (parameter : String) (make : Bool → Annotation) :
    AnnotationDescriptor :=
  { name := (make false).kind
    parameters := [⟨parameter, some (.bool false)⟩]
    build := fun arguments => do return make (← arguments.bool parameter)
    processor := some Control.process }

def predefinedKinds : List AnnotationDescriptor :=
  [ plain .override none,
    plain .singleton (some Singleton.process),
    plain .lifeCycleController (some Control.process),
    flagged "allowNoAttr" .attributeController,
    flagged "allowNoRequiredItf" .bindingController,
    plain .contentController (some Control.process),
    plain .cloneable (some Control.process),
    plain .dump (some fun _ _ _ _ => return none) ]

def predefined : AnnotationRegistry :=
  predefinedKinds.foldl register empty

end AnnotationRegistry

end Adl
