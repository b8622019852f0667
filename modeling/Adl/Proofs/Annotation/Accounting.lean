import Adl.Proofs.Annotation.Binding
import Adl.Proofs.Annotation.Building
import Adl.Proofs.Annotation.Checking
import Adl.Proofs.Loading.Collecting

namespace Adl

open Step Context

/-! Every node of an element is accounted for when annotations are checked: an annotation is built
from it, or a diagnostic says why not. What becomes of the nodes of an element depends on nothing
else in the definition. -/

/-! ## Verdicts -/

/-- What becomes of a node. -/
inductive Verdict where
  | accepted (built : Annotation)
  | unbuilt (error : AnnotationError)
  | misplaced (built : Annotation)
  | repeated (built : Annotation)
deriving DecidableEq

namespace Verdict

def accepted? : Verdict → Option Annotation
  | .accepted built => some built
  | .unbuilt _ | .misplaced _ | .repeated _ => none

/-- What is reported of a node that is not accepted. -/
def diagnostic? (target : Target) (node : AnnotationNode) : Verdict → Option Diagnostic
  | .accepted _ => none
  | .unbuilt error => some (.error .invalidAnnotationUse node.span error.message)
  | .misplaced built => some (.error .invalidAnnotationTarget node.span
      ("annotation '@" ++ built.kind ++ "' cannot be applied to " ++ target.name))
  | .repeated built => some (.error .duplicateAnnotationUse node.span
      ("duplicate annotation '@" ++ built.kind ++ "'"))

/-- A node is accepted if an annotation is built from it, whose kind admits the element and is that
of none of the annotations that were accepted before. The first of these that fails is what is
held against it. -/
def Fits (registry : AnnotationRegistry) (target : Target) (earlier : List Annotation)
    (node : AnnotationNode) : Verdict → Prop
  | .accepted built => registry.Builds node built ∧ built.targets.contains target = true ∧
      ∀ other ∈ earlier, other.kind ≠ built.kind
  | .unbuilt error => registry.build node = .error error ∧ ∀ built, ¬registry.Builds node built
  | .misplaced built => registry.Builds node built ∧ built.targets.contains target = false
  | .repeated built => registry.Builds node built ∧ built.targets.contains target = true ∧
      ∃ other ∈ earlier, other.kind = built.kind

/-- The annotations that were accepted, in order. -/
def kept (verdicts : List Verdict) : List Annotation :=
  verdicts.filterMap accepted?

theorem kept_cons (verdict : Verdict) (verdicts : List Verdict) :
    kept (verdict :: verdicts) = verdict.accepted?.toList ++ kept verdicts := by
  cases verdict <;> rfl

/-- Each node has a verdict that fits, given what was accepted before it. -/
structure Judge (registry : AnnotationRegistry) (target : Target) (earlier : List Annotation)
    (nodes : List AnnotationNode) (verdicts : List Verdict) : Prop where
  length : verdicts.length = nodes.length
  fits : ∀ index (node : AnnotationNode) (verdict : Verdict), nodes[index]? = some node →
    verdicts[index]? = some verdict →
    verdict.Fits registry target (earlier ++ kept (verdicts.take index)) node

end Verdict

namespace AnnotationRegistry

open Verdict (kept Judge)

variable {registry : AnnotationRegistry} {target : Target} {context : Context} {id : DefinitionId}

def verdict (registry : AnnotationRegistry) (target : Target) (earlier : List Annotation)
    (node : AnnotationNode) : Verdict :=
  match registry.build node with
  | .error error => .unbuilt error
  | .ok built =>
      if !built.targets.contains target then .misplaced built
      else if earlier.any (·.kind == built.kind) then .repeated built
      else .accepted built

def verdicts (registry : AnnotationRegistry) (target : Target) :
    List Annotation → List AnnotationNode → List Verdict
  | _, [] => []
  | earlier, node :: rest =>
      let first := registry.verdict target earlier node
      first :: registry.verdicts target (earlier ++ first.accepted?.toList) rest

theorem fits_verdict (registry : AnnotationRegistry) (target : Target) (earlier : List Annotation)
    (node : AnnotationNode) :
    (registry.verdict target earlier node).Fits registry target earlier node := by
  unfold verdict
  cases builds : registry.build node with
  | error error =>
      refine ⟨builds, fun built isBuilt => ?_⟩
      cases builds.symm.trans (build_eq_ok_iff.mpr isBuilt)
  | ok built =>
      have isBuilt := build_eq_ok_iff.mp builds
      cases admits : built.targets.contains target with
      | false => simpa [admits] using ⟨isBuilt, admits⟩
      | true =>
          by_cases again : earlier.any (·.kind == built.kind) = true
          · obtain ⟨other, member, same⟩ := List.any_eq_true.mp again
            simp only [admits, again, Bool.not_true, Bool.false_eq_true, if_false, if_true]
            exact ⟨isBuilt, admits, other, member, beq_iff_eq.mp same⟩
          · simp only [admits, again, Bool.not_true, Bool.false_eq_true, if_false]
            refine ⟨isBuilt, admits, fun other member same => again ?_⟩
            exact List.any_eq_true.mpr ⟨other, member, beq_iff_eq.mpr same⟩

theorem judge_verdicts (registry : AnnotationRegistry) (target : Target)
    (earlier : List Annotation) (nodes : List AnnotationNode) :
    Judge registry target earlier nodes (registry.verdicts target earlier nodes) := by
  induction nodes generalizing earlier with
  | nil => exact ⟨rfl, nofun⟩
  | cons node rest induction =>
      obtain ⟨length, fits⟩ := induction
        (earlier ++ (registry.verdict target earlier node).accepted?.toList)
      refine ⟨congrArg Nat.succ length, fun index other verdict isNode isVerdict => ?_⟩
      cases index with
      | zero =>
          cases isNode
          cases isVerdict
          rw [List.take_zero]
          exact (List.append_nil earlier).symm ▸ registry.fits_verdict target earlier node
      | succ index =>
          have later := fits index other verdict isNode isVerdict
          rwa [List.append_assoc, ← Verdict.kept_cons] at later

/-- No kind is accepted twice. -/
theorem nodup_kept {earlier : List Annotation} (nodup : (earlier.map (·.kind)).Nodup)
    (nodes : List AnnotationNode) :
    ((earlier ++ kept (registry.verdicts target earlier nodes)).map (·.kind)).Nodup := by
  induction nodes generalizing earlier with
  | nil => simpa [verdicts, kept] using nodup
  | cons node rest induction =>
      rw [verdicts, Verdict.kept_cons, ← List.append_assoc]
      refine induction ?_
      have fits := registry.fits_verdict target earlier node
      cases judged : registry.verdict target earlier node with
      | accepted built =>
          rw [judged] at fits
          obtain ⟨-, -, isNew⟩ := fits
          simp only [Verdict.accepted?, Option.toList_some, List.map_append, List.map_singleton]
          refine List.nodup_append.mpr ⟨nodup, List.nodup_singleton _, ?_⟩
          rintro _ member _ single same
          obtain ⟨other, among, rfl⟩ := List.mem_map.mp member
          exact isNew other among (same.trans (List.mem_singleton.mp single))
      | unbuilt | misplaced | repeated => simpa [Verdict.accepted?] using nodup

/-! ## The check of an element -/

/-- What is reported of the nodes, in order. -/
def refusals (registry : AnnotationRegistry) (target : Target) (earlier : List Annotation)
    (nodes : List AnnotationNode) : List Diagnostic :=
  (nodes.zip (registry.verdicts target earlier nodes)).filterMap fun judged =>
    judged.2.diagnostic? target judged.1

theorem refusals_cons (earlier : List Annotation) (node : AnnotationNode)
    (rest : List AnnotationNode) :
    registry.refusals target earlier (node :: rest) =
      ((registry.verdict target earlier node).diagnostic? target node).toList ++
        registry.refusals target
          (earlier ++ (registry.verdict target earlier node).accepted?.toList) rest := by
  unfold refusals
  rw [verdicts, List.zip_cons_cons, List.filterMap_cons]
  cases (registry.verdict target earlier node).diagnostic? target node <;> rfl

theorem mem_refusals {earlier : List Annotation} {nodes : List AnnotationNode} {index : Nat}
    {node : AnnotationNode} {verdict : Verdict} {diagnostic : Diagnostic}
    (isNode : nodes[index]? = some node)
    (isVerdict : (registry.verdicts target earlier nodes)[index]? = some verdict)
    (refused : verdict.diagnostic? target node = some diagnostic) :
    diagnostic ∈ registry.refusals target earlier nodes := by
  refine List.mem_filterMap.mpr ⟨(node, verdict), List.mem_of_getElem? (i := index) ?_, refused⟩
  simp [List.getElem?_zip_eq_some, isNode, isVerdict]

/-- One node has its verdict: it is accepted, or a diagnostic is recorded. -/
theorem checkNodes_cons (collects : context.log.policy = .collect) (earlier : List Annotation)
    (node : AnnotationNode) (rest : List AnnotationNode) :
    registry.checkNodes target earlier (node :: rest) context =
      registry.checkNodes target
        (earlier ++ (registry.verdict target earlier node).accepted?.toList) rest
        (context.collected
          ((registry.verdict target earlier node).diagnostic? target node).toList) := by
  have refused {kind : DiagnosticKind} {message : String} :
      (Loading.recordError kind node.span message >>= fun _ =>
        registry.checkNodes target earlier rest) context =
      registry.checkNodes target earlier rest
        (context.collected [.error kind node.span message]) :=
    bind_of_ok (Loading.record_of_collecting collects rfl)
  rw [checkNodes, verdict]
  cases registry.build node with
  | error error =>
      rw [Verdict.accepted?, Option.toList_none, List.append_nil]
      exact refused
  | ok built =>
      cases admits : built.targets.contains target with
      | false =>
          simp only [admits, Bool.not_false, if_true, Verdict.accepted?, Option.toList_none,
            List.append_nil]
          exact refused
      | true =>
          by_cases again : earlier.any (·.kind == built.kind) = true
          · simp only [admits, again, Bool.not_true, Bool.false_eq_true, if_false, if_true,
              Verdict.accepted?, Option.toList_none, List.append_nil]
            exact refused
          · simp only [admits, again, Bool.not_true, Bool.false_eq_true, if_false]
            rfl

theorem checkNodes_of_collecting (collects : context.log.policy = .collect)
    (earlier : List Annotation) (nodes : List AnnotationNode) :
    registry.checkNodes target earlier nodes context =
      (.ok (earlier ++ kept (registry.verdicts target earlier nodes)),
        context.collected (registry.refusals target earlier nodes)) := by
  induction nodes generalizing earlier context with
  | nil =>
      rw [verdicts, kept, List.filterMap_nil, List.append_nil]
      rfl
  | cons node rest induction =>
      rw [checkNodes_cons collects, refusals_cons, Context.collected_append, verdicts,
        Verdict.kept_cons, ← List.append_assoc]
      exact induction ((context.policy_collected _).trans collects) _

/-! ## The check of a definition -/

/-- What the check reports of the element at a position. -/
def refusalsAt (registry : AnnotationRegistry) (definition : Definition) (path : NodePath) :
    List Diagnostic :=
  registry.refusals path.target [] (definition.nodesAt path)

/-- Each element is checked on its own, and all that is held against its nodes is reported. -/
theorem checkDefinition_of_collecting (collects : context.log.policy = .collect)
    (untyped : (context.definition id).IsUntyped) :
    registry.checkDefinition id context =
      (.ok (), (context.collected ((context.definition id).nodePaths.flatMap
          (registry.refusalsAt (context.definition id)))).replace id
        ((context.definition id).mapAnnotations (Annotations.retyped fun target nodes =>
          kept (registry.verdicts target [] nodes)))) := by
  rw [checkDefinition_eq_revise (untyped.everywhere.mono fun _ _ none _ => none)]
  refine Loading.revise_of_ok ?_
  rw [← Definition.foldl_modifyAnnotationsAt, ← Context.foldl_collected]
  refine checkElements_of_ok (·.log.policy = .collect) _ _ (fun path _ reached collects => ?_)
    collects
  exact ⟨checkNodes_of_collecting collects [] _, (policy_collected _ _).trans collects⟩

/-- The verdicts on the nodes of an element are given by these nodes alone. Wherever the element
is, its check keeps the nodes, builds what is accepted, and reports all the rest. -/
theorem accounts_for_every_node (registry : AnnotationRegistry) (target : Target)
    (nodes : List AnnotationNode) :
    Judge registry target [] nodes (registry.verdicts target [] nodes) ∧
      ((kept (registry.verdicts target [] nodes)).map (·.kind)).Nodup ∧
      ∀ (context : Context) (id : DefinitionId) (path : NodePath),
        context.log.policy = .collect → (context.definition id).IsUntyped → path.target = target →
        (context.definition id).annotationsAt? path = some ⟨nodes, []⟩ →
        ∃ reached, registry.checkDefinition id context = (.ok (), reached) ∧
          (reached.definition id).annotationsAt? path =
            some ⟨nodes, kept (registry.verdicts target [] nodes)⟩ ∧
          ∀ (index : Nat) (node : AnnotationNode) (verdict : Verdict) (diagnostic : Diagnostic),
            nodes[index]? = some node →
            (registry.verdicts target [] nodes)[index]? = some verdict →
            verdict.diagnostic? target node = some diagnostic →
            diagnostic ∈ reached.log.errors := by
  refine ⟨judge_verdicts registry target [] nodes, ?_, ?_⟩
  · exact nodup_kept (show (List.map _ []).Nodup from .nil) nodes
  rintro context id path collects untyped rfl found
  refine ⟨_, checkDefinition_of_collecting collects untyped, ?_, ?_⟩
  · by_cases within : id < context.arena.size
    · rw [definition_replace (context.collected _) _ within,
        Definition.annotationsAt?_mapAnnotations, found]
      rfl
    · -- where nothing is stored there are no nodes to build from
      have plain : isAnnotated (context.definition id) = false := by
        have nothing : context.definition id = default := by simp [Context.definition, within]
        rw [nothing]
        rfl
      have noNodes : nodes = [] := (everywhere_of_not_annotated plain).at found
      cases noNodes
      rw [definition_replace_of_beyond (context.collected _) _ within]
      exact found
  · intro index node verdict diagnostic isNode isVerdict refused
    refine mem_errors_collected.mpr (.inr (List.mem_flatMap.mpr ⟨path,
      Definition.mem_nodePaths_iff.mpr (Option.isSome_of_eq_some found), ?_⟩))
    rw [refusalsAt, Definition.nodesAt_of_some found]
    exact mem_refusals isNode isVerdict refused

/-- A node that is accepted, and one for each reason to refuse it. -/
def assorted : List AnnotationNode :=
  [.ofType "Mark", .ofType "DumpAST", .ofType "a.DumpAST", .ofType "Override"]

def holdingAssorted : Context :=
  { (default : Context) with
    arena := #[{ (default : Definition) with annotations := ⟨assorted, []⟩ }] }

theorem assorted_accounted :
    ∃ reached, predefined.checkDefinition 0 holdingAssorted = (.ok (), reached) ∧
      (reached.definition 0).annotations = ⟨assorted, [.dump]⟩ ∧
      .error .invalidAnnotationUse .generated "unknown annotation '@Mark'" ∈ reached.log.errors ∧
      .error .duplicateAnnotationUse .generated "duplicate annotation '@DumpAST'" ∈
        reached.log.errors ∧
      .error .invalidAnnotationTarget .generated
        "annotation '@Override' cannot be applied to definition" ∈ reached.log.errors := by
  obtain ⟨-, -, accounted⟩ := accounts_for_every_node predefined .definition assorted
  obtain ⟨reached, ran, typed, reported⟩ :=
    accounted holdingAssorted 0 .definition rfl (by decide +kernel) rfl rfl
  have judged : predefined.verdicts .definition [] assorted =
      [.unbuilt (.unknownKind "Mark"), .accepted .dump, .repeated .dump, .misplaced .override] := by
    decide +kernel
  rw [judged] at typed reported
  exact ⟨reached, ran, Option.some.inj typed, reported 0 _ _ _ rfl rfl rfl,
    reported 2 _ _ _ rfl rfl rfl, reported 3 _ _ _ rfl rfl rfl⟩

end AnnotationRegistry

end Adl
