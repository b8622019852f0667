import Adl.Definition.Basic

namespace Adl

/-! The textual form of a definition. -/

namespace Definition

/-- Each annotation stands on a line of its own. -/
def annotationLines (indent : String) (annotations : Annotations) : String :=
  String.join (annotations.nodes.map fun node => indent ++ node.text ++ "\n")

private def member (annotations : Annotations) (text : String) : String :=
  annotationLines "  " annotations ++ "  " ++ text ++ ";\n"

def cardinalityText : Cardinality → String
  | .singleton => ""
  | .collection (some size) => "[" ++ toString size ++ "]"
  | .collection none => "[]"

def interfaceText (qualifier : String) (interface : Interface) : String :=
  let verb := match interface.role with
    | .server => "provides "
    | .client => "requires "
  let contingency := if interface.isOptional then "optional " else ""
  member interface.annotations
    (qualifier ++ verb ++ contingency ++ interface.signature ++ " as " ++
      interface.name ++ cardinalityText interface.cardinality)

def attributeText (declared : Attribute) : String :=
  let value := match declared.value with
    | some value => " = " ++ value.text
    | none => ""
  member declared.annotations
    ("attribute " ++ declared.typeName ++ " " ++ declared.name ++ value)

def componentText (component : Component) : String :=
  let designated := match component.definition, component.typeParameter with
    | some reference, _ => reference.text
    | none, some parameter => parameter
    | none, none => "?"
  member component.annotations ("contains " ++ designated ++ " as " ++ component.name)

def bindingText (binding : Binding) : String :=
  member binding.annotations ("binds " ++ binding.text)

def sourceText (source : Source) : String :=
  member source.annotations ("source " ++ source.path)

def controllerText (controller : Controller) : String :=
  "  controller \x7b" ++ ", ".intercalate (controller.interfaces.map (·.name)) ++
    "\x7d source " ++ ", ".intercalate (controller.sources.map (·.path)) ++ ";\n"

def importText (declaration : Import) : String :=
  "import " ++ declaration.package ++ "." ++ declaration.simpleName ++ ";\n"

private def enclosed (opening closing : String) (items : List String) : String :=
  if items.isEmpty then "" else opening ++ ", ".intercalate items ++ closing

def typeParameterText (parameter : FormalTypeParameter) : String :=
  match parameter.conformsTo with
  | some type => parameter.name ++ " conformsto " ++ type.text
  | none => parameter.name

def headerText (definition : Definition) : String :=
  (if definition.isAbstract then "abstract " else "") ++
    definition.kind.keyword ++ " " ++ definition.name ++
    enclosed "<" ">" (definition.typeParameters.map typeParameterText) ++
    enclosed "(" ")" (definition.parameters.map (·.name)) ++
    enclosed " extends " "" (definition.parents.map Reference.text) ++ " \x7b\n"

def text (definition : Definition) : String :=
  String.join (definition.imports.map importText) ++
    (if definition.imports.isEmpty then "" else "\n") ++
    annotationLines "" definition.annotations ++
    definition.headerText ++
    String.join (definition.interfaces.map (interfaceText "")) ++
    String.join (definition.internalInterfaces.map (interfaceText "internal ")) ++
    String.join (definition.attributes.map attributeText) ++
    String.join (definition.components.map componentText) ++
    String.join (definition.bindings.map bindingText) ++
    String.join (definition.sources.map sourceText) ++
    String.join (definition.controllers.map controllerText) ++
    "\x7d\n"

end Definition

end Adl
