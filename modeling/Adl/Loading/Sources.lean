import Adl.FrontEnd

namespace Adl

/-! Where definitions come from: registered definitions, registered texts, and located
files, in this order. -/

namespace Sources

def store (add : SourceMap → UInt16 × SourceMap) : Loading UInt16 :=
  fun context =>
    let (file, sources) := add context.sources
    (.ok file, { context with sources })

/-- Stores what was parsed, if it is the definition that was asked for. -/
def accept (name : String) (definition : Definition) : Loading DefinitionId := do
  if definition.name = name then
    Loading.allocate definition
  else
    Step.fail (.ofDiagnostic .definitionNotFound definition.span
      ("source for '" ++ name ++ "' defines '" ++ definition.name ++ "' instead"))

/-- A generated text that cannot be parsed becomes a file of its own each time, and the
diagnostic points there. -/
def dumped (text : String) (diagnostic : Diagnostic) : Loading Diagnostic := do
  let context ← Loading.context
  let file ← store (·.addDump context.options.sourceExtension text)
  let diagnostic := { diagnostic with span := diagnostic.span.relocated file }
  if context.options.dumpGeneratedSources then
    return diagnostic.withNote "generated source kept in <dump>"
  else
    return diagnostic

def parseRegistered (frontEnd : FrontEnd) (name text : String) :
    Loading DefinitionId := do
  match frontEnd.parser with
  | none => Step.fail (.internal (.missingParser name))
  | some parse =>
      let file ← store (·.add ⟨"<generated " ++ name ++ ">"⟩ text)
      match parse name text file with
      | .ok definition => accept name definition
      | .error diagnostic => Step.fail (.fatal (← dumped text diagnostic))

def parseLocated (frontEnd : FrontEnd) (name : String) : Loading DefinitionId := do
  match frontEnd.locate? name, frontEnd.parser with
  | none, _ =>
      Step.fail (.ofDiagnostic .definitionNotFound .generated
        ("definition '" ++ name ++ "' not found"))
  | some _, none => Step.fail (.internal (.missingParser name))
  | some located, some parse =>
      let file ← store (·.add located.path located.text)
      match parse name located.text file with
      | .ok definition => accept name definition
      | .error diagnostic => Step.fail (.fatal diagnostic)

/-- The definition of a name, as it comes. -/
def find (frontEnd : FrontEnd) (name : String) : Loading DefinitionId := do
  let context ← Loading.context
  match context.registered.find? name with
  | some id => return id
  | none =>
      match context.registeredSources.find? name with
      | some text => parseRegistered frontEnd name text
      | none => parseLocated frontEnd name

end Sources

end Adl
