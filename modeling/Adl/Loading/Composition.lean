import Adl.Definition.Inheritance
import Adl.Loading.Declarations

namespace Adl

/-! The definitions that a definition is made from: those of its sub-components, and
those that it extends. -/

namespace SubComponents

def recordRepeated (definition : Definition) : Loading Unit :=
  (repeatedBy Component.name [] definition.components).forM fun component =>
    Loading.recordError .duplicateName component.span
      ("duplicate sub-component name '" ++ component.name ++ "'")

def decorate (resolved : Option Resolved) : Revising Component Unit :=
  Drafting.modifyDraft fun component => { component with resolved }

/-- Accepts what a sub-component was found to instantiate, if it can be. -/
def accept (component : Component) (id : DefinitionId) : Revising Component Unit := do
  let found ← Loading.definition id
  if found.isType || found.isAbstract then
    Loading.recordError .invalidSubComponent component.span
      ("sub-component '" ++ component.name ++ "' cannot instantiate '" ++ found.name ++
        "': the definition is " ++ (if found.isType then "a type" else "abstract"))
    decorate none
  else
    decorate (some ⟨found.name, some id⟩)

/-- Resolves one sub-component, unless its decoration still holds. -/
def resolve (resolver : Resolver) (owner : DefinitionId) : Revising Component Unit := do
  let component ← Drafting.draft
  let context ← Loading.context
  let known := component.resolved.bind fun resolved =>
    (context.resolved? resolved).map fun id => (⟨resolved.name, some id⟩ : Resolved)
  match known, component.definition with
  | some resolved, _ => decorate (some resolved)
  | none, none => return
  | none, some reference =>
      let found ← Drafting.onPart (fun _ => reference.clearResolution)
        (fun reference component => { component with definition := some reference })
        (resolver (some owner))
      match found with
      | none => decorate none
      | some id => accept component id

def resolveAll (resolver : Resolver) (id : DefinitionId) : Loading Unit := do
  let definition ← Loading.definition id
  if !definition.components.isEmpty then
    Loading.revise id do
      recordRepeated definition
      let _ ← Drafting.onPart (·.components)
        (fun components definition => { definition with components })
        (Drafting.each fun _ => resolve resolver id)

end SubComponents

namespace Parents

/-- Resolves one parent; where the reference gives values to its parameters, a copy
with these values takes its place. -/
def resolve (resolver : Resolver) (load : String → Loading DefinitionId)
    (id : DefinitionId) (child : Definition) : Revising Reference (Option DefinitionId) := do
  match ← resolver (some id) with
  | none => return none
  | some target =>
      let parent ←
        match ← substituteValues load (← Drafting.draft) target true with
        | .substituted copy => do
            let name := (← Loading.definition copy).name
            Drafting.modifyDraft fun reference =>
              { reference with resolved := some ⟨name, some copy⟩ }
            pure copy
        | .notApplicable | .failed => pure target
      let reference ← Drafting.draft
      match Inheritance.kindViolation? child.kind (← Loading.definition parent).kind with
      | none => return some parent
      | some reason =>
          Loading.recordError .invalidExtends reference.span
            ("'" ++ child.name ++ "' cannot extend '" ++ reference.name ++ "': " ++ reason)
          return none

/-- What all parents together hand on; the later ones override the earlier ones. -/
def combine : Option Definition → List DefinitionId → Loading (Option Definition)
  | combined, [] => return combined
  | combined, id :: rest => do
      let parent := Inheritance.inheritable (← Loading.definition id)
      match combined with
      | none => combine (some parent) rest
      | some combined => do
          combine (some (← Inheritance.inherit false parent combined)) rest

def markMerged (definition : Definition) : Definition :=
  { definition with
    decorations := { definition.decorations with extendsMerged := true } }

/-- Takes over what the parents hand on. While errors are reported the draft is an
empty definition, and stays one if they end the compilation. -/
def takeOver (inherited : Definition) : Revising Definition Unit := do
  let own ← Drafting.draft
  Drafting.modifyDraft fun _ => .bare "" .empty
  let merged ← (Inheritance.inherit true own inherited : Loading Definition)
  Drafting.modifyDraft fun _ => merged

/-- Merges the parents of a definition into it, once. -/
def merge (resolver : Resolver) (load : String → Loading DefinitionId)
    (id : DefinitionId) : Loading Unit := do
  let definition ← Loading.definition id
  if definition.decorations.extendsMerged then
    return
  else if definition.parents.isEmpty then
    Loading.replace id (markMerged definition)
  else
    Loading.revise id do
      let found ← Drafting.onPart (·.parents)
        (fun parents definition => { definition with parents })
        (Drafting.each fun _ => resolve resolver load id definition)
      match ← (combine none (found.filterMap fun parent => parent) :
          Loading (Option Definition)) with
      | some inherited => takeOver inherited
      | none => pure ()
      Drafting.modifyDraft markMerged

end Parents

end Adl
