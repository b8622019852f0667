import Adl.Proofs.Annotation.Processing
import Adl.Proofs.Loading.Running

namespace Adl

open Step Context

/-! The check of a definition is the check of the nodes of each element. No element has a part in
what comes of another, as nodes are not changed by the check. -/

/-- The annotations of an element of which others are built from the nodes. -/
def Annotations.retyped (typed : Target → List AnnotationNode → List Annotation) (target : Target)
    (annotations : Annotations) : Annotations :=
  { annotations with typed := typed target annotations.nodes }

namespace Definition

/-- The nodes of the element at a position, if there is one. -/
def nodesAt (definition : Definition) (path : NodePath) : List AnnotationNode :=
  ((definition.annotationsAt? path).getD .none).nodes

variable {definition : Definition} {path : NodePath} {annotations : Annotations}

theorem nodesAt_of_some (found : definition.annotationsAt? path = some annotations) :
    definition.nodesAt path = annotations.nodes := by
  rw [nodesAt, found, Option.getD_some]

theorem nodesAt_of_none (absent : definition.annotationsAt? path = none) :
    definition.nodesAt path = [] := by
  rw [nodesAt, absent]
  rfl

theorem nodesAt_retyped (definition : Definition) (path : NodePath) (target : Target)
    (typed : Target → List AnnotationNode → List Annotation) (other : NodePath) :
    (definition.modifyAnnotationsAt path (Annotations.retyped typed target)).nodesAt other =
      definition.nodesAt other := by
  unfold nodesAt
  rw [annotationsAt?_modifyAnnotationsAt]
  split
  · cases definition.annotationsAt? other <;> rfl
  · rfl

end Definition

namespace AnnotationRegistry

variable {registry : AnnotationRegistry} {definition : Definition} {context reached : Context}
  {id : DefinitionId} {path : NodePath} {paths : List NodePath}

theorem checkElement_of_ok {typed : Target → List AnnotationNode → List Annotation}
    (checks : registry.checkNodes path.target [] (definition.nodesAt path) context =
      (.ok (typed path.target (definition.nodesAt path)), reached)) :
    registry.checkElement path (context, definition) =
      (.ok (), (reached,
        definition.modifyAnnotationsAt path (Annotations.retyped typed path.target))) := by
  refine read_bind rfl ?_
  cases found : definition.annotationsAt? path with
  | none =>
      rw [Definition.nodesAt_of_none found] at checks
      have nothing : context = reached := congrArg Prod.snd checks
      rw [Definition.modifyAnnotationsAt_of_none found, nothing]
      rfl
  | some annotations =>
      rw [Definition.nodesAt_of_some found] at checks
      refine (bind_of_ok (Drafting.lift_of_ok checks)).trans ?_
      refine congrArg (fun changed => (Except.ok (), (reached, changed)))
        (Definition.modifyAnnotationsAt_congr fun other isOther => ?_)
      cases found.symm.trans isOther
      rfl

/-- Where the check of the nodes of each element runs through, so does that of the elements in
turn. -/
theorem checkElements_of_ok (Holds : Context → Prop)
    (typed : Target → List AnnotationNode → List Annotation) (report : NodePath → Context → Context)
    (checks : ∀ path ∈ paths, ∀ context, Holds context →
      registry.checkNodes path.target [] (definition.nodesAt path) context =
        (.ok (typed path.target (definition.nodesAt path)), report path context) ∧
      Holds (report path context)) (holds : Holds context) :
    paths.forM registry.checkElement (context, definition) =
      (.ok (), (paths.foldl (fun context path => report path context) context,
        paths.foldl (fun changed path =>
          changed.modifyAnnotationsAt path (Annotations.retyped typed path.target)) definition)) := by
  induction paths generalizing context definition with
  | nil => rfl
  | cons path rest induction =>
      obtain ⟨checked, stillHolds⟩ := checks path List.mem_cons_self context holds
      rw [List.forM_eq_forM, List.forM_cons, bind_of_ok (checkElement_of_ok checked)]
      refine induction (fun other member => ?_) stillHolds
      rw [Definition.nodesAt_retyped]
      exact checks other (List.mem_cons_of_mem _ member)

/-- A definition without nodes need not be looked at: the checks of its elements would leave it as
it is. -/
theorem checkDefinition_eq_revise
    (bare : (context.definition id).Everywhere fun _ annotations =>
      annotations.nodes = [] → annotations.typed = []) :
    registry.checkDefinition id context =
      Loading.revise id ((context.definition id).nodePaths.forM registry.checkElement) context := by
  refine read_bind rfl ?_
  split
  · rfl
  · rename_i plain
    have noNodes := everywhere_of_not_annotated (by simpa using plain)
    refine (Loading.revise_of_stays (forM_of_stays fun path _ => ?_)).symm
    refine read_bind rfl ?_
    cases found : (context.definition id).annotationsAt? path with
    | none => rfl
    | some annotations =>
        obtain ⟨nodes, typed⟩ := annotations
        cases (noNodes.at found : nodes = [])
        cases (bare.at found rfl : typed = [])
        refine congrArg (fun changed => (Except.ok (), (context, changed)))
          (Definition.modifyAnnotationsAt_of_same fun other isOther => ?_)
        cases found.symm.trans isOther
        rfl

end AnnotationRegistry

end Adl
