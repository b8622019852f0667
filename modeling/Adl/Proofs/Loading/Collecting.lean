import Adl.Proofs.Loading.Running
import Adl.Proofs.Reference.Matching

namespace Adl

open Step

/-! What is in the log after errors were collected: those that were there, and behind them the new
ones, each once. -/

namespace DiagnosticLog

theorem mem_recordOnce {known : List Diagnostic} {diagnostic other : Diagnostic} :
    other ∈ recordOnce known diagnostic ↔ other ∈ known ∨ other = diagnostic := by
  unfold recordOnce
  split
  · rename_i among
    refine ⟨.inl, fun either => either.elim id fun same => ?_⟩
    simpa [same] using among
  · rw [List.mem_append, List.mem_singleton]

theorem recordOnce_of_mem {known : List Diagnostic} {diagnostic : Diagnostic}
    (among : diagnostic ∈ known) : recordOnce known diagnostic = known :=
  if_pos (by simpa using among)

end DiagnosticLog

namespace Context

/-- The context with more errors in its log, each once. -/
def collected (context : Context) (diagnostics : List Diagnostic) : Context :=
  { context with log := { context.log with
      errors := diagnostics.foldl DiagnosticLog.recordOnce context.log.errors } }

variable {context : Context} {diagnostics : List Diagnostic} {diagnostic : Diagnostic}

theorem collected_cons (context : Context) (diagnostic : Diagnostic)
    (diagnostics : List Diagnostic) :
    context.collected (diagnostic :: diagnostics) =
      (context.collected [diagnostic]).collected diagnostics :=
  rfl

@[simp] theorem policy_collected (context : Context) (diagnostics : List Diagnostic) :
    (context.collected diagnostics).log.policy = context.log.policy :=
  rfl

theorem collected_append (context : Context) (first second : List Diagnostic) :
    context.collected (first ++ second) = (context.collected first).collected second := by
  unfold collected
  rw [List.foldl_append]

theorem foldl_collected {α : Type} (items : List α) (reported : α → List Diagnostic) :
    items.foldl (fun context item => context.collected (reported item)) context =
      context.collected (items.flatMap reported) := by
  induction items generalizing context with
  | nil => rfl
  | cons item rest induction =>
      rw [List.foldl_cons, induction, List.flatMap_cons, collected_append]

theorem mem_errors_collected :
    diagnostic ∈ (context.collected diagnostics).log.errors ↔
      diagnostic ∈ context.log.errors ∨ diagnostic ∈ diagnostics := by
  induction diagnostics generalizing context with
  | nil => exact ⟨.inl, fun either => either.resolve_right nofun⟩
  | cons first rest induction =>
      rw [collected_cons, induction, List.mem_cons, ← or_assoc]
      exact or_congr_left DiagnosticLog.mem_recordOnce

/-- Errors that are known change nothing. -/
theorem collected_of_known (known : ∀ diagnostic ∈ diagnostics, diagnostic ∈ context.log.errors) :
    context.collected diagnostics = context := by
  induction diagnostics with
  | nil => rfl
  | cons first rest induction =>
      have same : context.collected [first] = context := by
        have recorded := DiagnosticLog.recordOnce_of_mem (known first List.mem_cons_self)
        unfold collected
        rw [List.foldl_cons, List.foldl_nil, recorded]
      rw [collected_cons, same]
      exact induction fun other member => known other (List.mem_cons_of_mem _ member)

end Context

namespace Loading

variable {context : Context}

theorem record_of_collecting (collects : context.log.policy = .collect) {diagnostic : Diagnostic}
    (isError : diagnostic.isError = true) :
    record diagnostic context = (.ok (), context.collected [diagnostic]) := by
  by_cases known : diagnostic ∈ context.log.errors
  · rw [context.collected_of_known fun other member => List.mem_singleton.mp member ▸ known]
    simp [record, onPart, DiagnosticLog.record, isError, known]
  · simp [record, onPart, DiagnosticLog.record, isError, known, collects, Context.collected,
      DiagnosticLog.recordOnce]

/-- Where errors are collected, none stops the step that records them. -/
theorem recordAll_of_collecting (collects : context.log.policy = .collect)
    {diagnostics : List Diagnostic} (errors : AreErrors diagnostics) :
    recordAll diagnostics context = (.ok (), context.collected diagnostics) := by
  induction diagnostics generalizing context with
  | nil => rfl
  | cons first rest induction =>
      rw [context.collected_cons]
      refine (bind_of_ok (record_of_collecting collects (errors first List.mem_cons_self))).trans ?_
      exact induction collects fun other member => errors other (List.mem_cons_of_mem _ member)

end Loading

end Adl
