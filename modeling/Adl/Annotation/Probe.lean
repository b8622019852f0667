import Adl.Annotation.Predefined

namespace Adl

/-! Annotations that exercise the processing of annotations. A probe leaves a record
of each visit and acts as its effect says; one further kind has no processor, and
another cannot be built. -/

namespace Probe

def effectOfName : String → ProbeEffect
  | "attribute" => .attribute
  | "drop_interfaces" => .dropInterfaces
  | "fatal" => .fatal
  | "log" => .log
  | "register" => .register
  | _ => .record

private def addPhase (phases : Phases) (name : String) : Except String Phases :=
  if name.isEmpty then .ok phases
  else
    match Member.ofName? name with
    | some phase => .ok (phases.insert phase)
    | none => .error ("phase " ++ name)

def phasesOfText (text : String) : Except String Phases :=
  (text.splitOn ",").foldlM addPhase .empty

def build (arguments : AnnotationArguments) : Except String Annotation := do
  let phases ← phasesOfText (← arguments.string "phases")
  let label ← arguments.string "value"
  let effect ← arguments.string "effect"
  return {
    kind := "Probe"
    targets := .all
    phases
    isInherited := true
    directive := .probe label (effectOfName effect) }

private def complaint (definition : Definition) (label : String) : Diagnostic :=
  .error .invalidAnnotationUse definition.span ("probe " ++ label)

private def act (label : String) (definition : Definition) :
    ProbeEffect → Loading (Option Definition)
  | .record => return none
  | .attribute => return some (definition.addAttribute label "int" (some (.number 1)))
  | .dropInterfaces => return some { definition with interfaces := [] }
  | .fatal => Step.fail (.fatal (complaint definition label))
  | .log => do
      Loading.record (complaint definition label)
      return none
  | .register => do
      Loading.update (·.registerSource label "primitive")
      return none

def process : Processor := fun built node definition phase =>
  match built.directive with
  | .probe label effect => do
      Loading.update (·.visited ⟨label, node, definition.name, phase⟩)
      act label definition effect
  | _ => return none

end Probe

namespace AnnotationRegistry

def probe : AnnotationDescriptor :=
  { name := "Probe"
    parameters :=
      [⟨"value", none⟩, ⟨"phases", some (.string "AFTER_PARSING")⟩,
        ⟨"effect", some (.string "none")⟩]
    build := Probe.build
    processor := some Probe.process }

def withoutProcessor : AnnotationDescriptor :=
  { name := "NoProc"
    parameters := []
    build := fun _ => .ok {
      kind := "NoProc"
      targets := .single .definition
      phases := .single .afterParsing
      isInherited := false
      directive := .mark }
    processor := none }

/-- Asks for an argument that it does not declare. -/
def unbuildable : AnnotationDescriptor :=
  { name := "Broken"
    parameters := [⟨"on", some (.bool true)⟩]
    build := fun arguments => do
      if ← arguments.bool "on" then
        let _ ← arguments.bool "absent"
      else
        let _ ← arguments.string "absent"
      .error "no annotation"
    processor := none }

/-- The predefined kinds and the exercising ones. -/
def exercised : AnnotationRegistry :=
  [probe, withoutProcessor, unbuildable].foldl register predefined

end AnnotationRegistry

end Adl
