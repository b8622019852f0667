import Adl.Definition.Basic

namespace Adl

/-! Positions of the elements of a definition that annotations can be attached to.
A position stays meaningful while the definition is replaced by another. -/

inductive NodePath where
  | definition
  | interface (index : Nat)
  | internalInterface (index : Nat)
  | attribute (index : Nat)
  | component (index : Nat)
  | binding (index : Nat)
  | source (index : Nat)
deriving DecidableEq, Repr

namespace NodePath

def target : NodePath → Target
  | .definition => .definition
  | .interface _ | .internalInterface _ => .interface
  | .attribute _ => .attribute
  | .component _ => .component
  | .binding _ => .binding
  | .source _ => .source

def text : NodePath → String
  | .definition => "definition"
  | .interface index => "interface #" ++ toString index
  | .internalInterface index => "internal interface #" ++ toString index
  | .attribute index => "attribute #" ++ toString index
  | .component index => "component #" ++ toString index
  | .binding index => "binding #" ++ toString index
  | .source index => "source #" ++ toString index

end NodePath

namespace Definition

/-- Every element, the definition itself first. -/
def nodePaths (definition : Definition) : List NodePath :=
  .definition ::
    (List.range definition.interfaces.length).map .interface ++
    (List.range definition.internalInterfaces.length).map .internalInterface ++
    (List.range definition.attributes.length).map .attribute ++
    (List.range definition.components.length).map .component ++
    (List.range definition.bindings.length).map .binding ++
    (List.range definition.sources.length).map .source

def annotationsAt? (definition : Definition) : NodePath → Option Annotations
  | .definition => some definition.annotations
  | .interface index => definition.interfaces[index]?.map (·.annotations)
  | .internalInterface index =>
      definition.internalInterfaces[index]?.map (·.annotations)
  | .attribute index => definition.attributes[index]?.map (·.annotations)
  | .component index => definition.components[index]?.map (·.annotations)
  | .binding index => definition.bindings[index]?.map (·.annotations)
  | .source index => definition.sources[index]?.map (·.annotations)

/-- Changes the annotations of one element; a position without an element is
left alone. -/
def modifyAnnotationsAt (definition : Definition) (path : NodePath)
    (change : Annotations → Annotations) : Definition :=
  match path with
  | .definition =>
      { definition with annotations := change definition.annotations }
  | .interface index =>
      { definition with
        interfaces := definition.interfaces.modify index fun interface =>
          { interface with annotations := change interface.annotations } }
  | .internalInterface index =>
      { definition with
        internalInterfaces := definition.internalInterfaces.modify index
          fun interface =>
            { interface with annotations := change interface.annotations } }
  | .attribute index =>
      { definition with
        attributes := definition.attributes.modify index fun declared =>
          { declared with annotations := change declared.annotations } }
  | .component index =>
      { definition with
        components := definition.components.modify index fun component =>
          { component with annotations := change component.annotations } }
  | .binding index =>
      { definition with
        bindings := definition.bindings.modify index fun binding =>
          { binding with annotations := change binding.annotations } }
  | .source index =>
      { definition with
        sources := definition.sources.modify index fun source =>
          { source with annotations := change source.annotations } }

/-- The name of an element in messages. -/
def nodeName? (definition : Definition) : NodePath → Option String
  | .definition => some definition.name
  | .interface index => definition.interfaces[index]?.map (·.name)
  | .internalInterface index => definition.internalInterfaces[index]?.map (·.name)
  | .attribute index => definition.attributes[index]?.map (·.name)
  | .component index => definition.components[index]?.map (·.name)
  | .binding index => definition.bindings[index]?.map (·.text)
  | .source index => definition.sources[index]?.map (·.path)

end Definition

end Adl
