import Adl.Proofs.Loading.CacheCoherence
import Adl.Proofs.Loading.ParallelStages

namespace Adl

open Step Context

/-! Stopping at the first error against collecting them. Up to the first error both policies do
the same; from then on one compilation has ended, and the other keeps that error as its first. -/

variable {frontEnd : FrontEnd}

/-- The left compilation collects errors, the right one stops at the first. -/
def Pairing.firstError : Pairing Context where
  Related collecting stopping :=
    collecting.log.policy = .collect ∧ collecting.log.errors = [] ∧
      stopping = collecting.withPolicies .failFast .failFast
  Stopped collecting stopping :=
    ∃ first others, collecting.log.errors = first :: others ∧ stopping.log.errors = [first]

namespace Pairing

/-- What neither looks at the policy nor touches the errors. -/
theorem keeps_firstError {change : Context → Context}
    (blind : ∀ context option policy,
      change (context.withPolicies option policy) = (change context).withPolicies option policy)
    (policy : ∀ context, (change context).log.policy = context.log.policy)
    (errors : ∀ context, (change context).log.errors = context.log.errors) :
    firstError.Keeps change where
  related := by
    rintro l r ⟨collects, silent, rfl⟩
    exact ⟨(policy l).trans collects, (errors l).trans silent, blind l _ _⟩
  stoppedLeft := by
    rintro l r ⟨first, others, collected, stopped⟩
    exact ⟨first, others, (errors l).trans collected, stopped⟩
  stoppedRight := by
    rintro l r ⟨first, others, collected, stopped⟩
    exact ⟨first, others, collected, (errors r).trans stopped⟩

/-- The error that stops one compilation is the first of the other, which goes on. -/
theorem records_firstError (diagnostic : Diagnostic) :
    Parallel firstError (Loading.record diagnostic) (Loading.record diagnostic) where
  along := by
    rintro l r ⟨collects, silent, rfl⟩
    by_cases severe : diagnostic.isError = true
    · refine .inr ⟨?_, diagnostic, [], ?_, ?_⟩ <;>
        simp [Loading.record, Step.onPart, DiagnosticLog.record, withPolicies, severe, silent,
          collects]
    · have recorded (log : DiagnosticLog) :
          DiagnosticLog.record diagnostic log = (.ok (), log.warned diagnostic) := by
        simp [DiagnosticLog.record, severe]
      have run (context : Context) : Loading.record diagnostic context =
          (.ok (), { context with log := context.log.warned diagnostic }) := by
        simp only [Loading.record, Step.onPart, recorded]
      rw [run, run]
      exact .inl ⟨rfl, collects, silent, rfl⟩
  alone := by
    rintro l r ⟨first, others, collected, stopped⟩
    have reports : Reports l (Loading.record diagnostic l).2 :=
      (Loading.agree_record diagnostic).leads
    obtain ⟨later, kept⟩ := reports.errors
    exact ⟨first, others ++ later, by rw [← kept, collected, List.cons_append], stopped⟩

theorem watches_firstError : firstError.Watches where
  blind related := ⟨_, _, related.2.2⟩
  keeps _ isQuiet _ := keeps_firstError isQuiet.blind isQuiet.policy isQuiet.errors
  writes _ _ := keeps_firstError (fun _ _ _ => rfl) (fun _ => rfl) fun _ => rfl
  records := records_firstError

end Pairing

namespace FrontEnd

open Pairing

variable (runs : frontEnd.registry.RunsParallel .firstError)
include runs

theorem parallel_load (name : String) :
    Parallel .firstError (frontEnd.load name) (frontEnd.load name) :=
  parallel_load_of_stages watches_firstError.views
    (fun definition _ => watches_firstError.allocate definition)
    (fun _ blind _ log => keeps_firstError blind (fun context => congrArg _ (log context))
      fun context => congrArg _ (log context))
    (fun _ loads => Stage.parallel_run watches_firstError loads runs) name

end FrontEnd

/-! ## Compilations under both policies -/

/-- What a compilation that failed reports. -/
def CompilationResult.errors (result : CompilationResult) : List Diagnostic :=
  match result.outcome with
  | .ok _ => []
  | .error errors => errors

/-- Two compilations of which the second reports at most the first error of the first. Where
both succeed they differ in their policies only. -/
inductive CompilationResult.SameUpToFirst (collected stopped : CompilationResult) : Prop
  | succeeded (compiled : Compiled) (left : collected.outcome = .ok compiled)
      (right : stopped.outcome = .ok
        { compiled with context := compiled.context.withPolicies .failFast .failFast })
  | failed (first : Diagnostic) (others : List Diagnostic)
      (left : collected.outcome = .error (first :: others))
      (right : stopped.outcome = .error [first])

namespace FrontEnd

theorem sameUpToFirst_compile (runs : frontEnd.registry.RunsParallel .firstError)
    {collecting stopping : Context} (related : Pairing.firstError.Related collecting stopping)
    (names : List String) :
    (frontEnd.compile collecting names).SameUpToFirst (frontEnd.compile stopping names) := by
  have ran := (parallel_loadRoots Pairing.watches_firstError.views (parallel_load runs)
    names).along (collecting, []) (stopping, []) ⟨related, rfl⟩
  unfold compile
  revert ran
  generalize frontEnd.loadRoots names (collecting, []) = left
  generalize frontEnd.loadRoots names (stopping, []) = right
  obtain ⟨ended, collected, roots⟩ := left
  obtain ⟨otherEnded, stopped, otherRoots⟩ := right
  rintro (⟨same, ⟨-, silent, isStopped⟩, sameRoots⟩ | ⟨aborted, first, others, left, right⟩)
  · cases same
    cases sameRoots
    dsimp only at silent isStopped
    have silentToo : stopped.log.errors = [] := isStopped ▸ silent
    dsimp only
    rw [silent, silentToo, List.nil_append]
    cases stopDiagnostic? ended with
    | none => exact .succeeded _ rfl (by rw [isStopped]; rfl)
    | some diagnostic => exact .failed diagnostic [] rfl rfl
  · dsimp only at aborted left right
    rw [aborted]
    dsimp only
    rw [left, right]
    exact .failed first _ rfl rfl

/-- What is added before a compilation starts does not depend on the policy. -/
theorem related_foldl {Item : Type} (add : Context → Item → Context)
    (blind : ∀ item context option policy,
      add (context.withPolicies option policy) item =
        (add context item).withPolicies option policy)
    (log : ∀ item context, (add context item).log = context.log) (options : Options)
    (items : List Item) :
    Pairing.firstError.Related
      (items.foldl add (.ofOptions { options with errorPolicy := .collect }))
      (items.foldl add (.ofOptions { options with errorPolicy := .failFast })) := by
  refine List.foldl_rel (r := Pairing.firstError.Related) ⟨rfl, rfl, rfl⟩ ?_
  intro item _ l r related
  exact (Pairing.keeps_firstError (blind item) (fun context => congrArg _ (log item context))
    fun context => congrArg _ (log item context)).related l r related

/-- Of the errors that are collected, a compilation that stops at the first error reports the
first one, and no other; both succeed, or neither does. -/
theorem stops_at_first_error (frontEnd : FrontEnd)
    (runs : frontEnd.registry.RunsParallel .firstError) (options : Options)
    (names : List String) :
    (∀ definitions,
      (frontEnd.compile (.ofDefinitions { options with errorPolicy := .collect } definitions)
        names).SameUpToFirst
      (frontEnd.compile (.ofDefinitions { options with errorPolicy := .failFast } definitions)
        names)) ∧
    ∀ sources,
      (frontEnd.compile (.ofSources { options with errorPolicy := .collect } sources)
        names).SameUpToFirst
      (frontEnd.compile (.ofSources { options with errorPolicy := .failFast } sources) names) :=
  ⟨fun definitions => sameUpToFirst_compile runs
      (related_foldl (fun context (definition : Definition) =>
          (context.register definition.name definition).2)
        (fun _ _ _ _ => rfl) (fun _ _ => rfl) options definitions) names,
    fun sources => sameUpToFirst_compile runs
      (related_foldl (fun context (source : String × String) =>
          context.registerSource source.1 source.2)
        (fun _ _ _ _ => rfl) (fun _ _ => rfl) options sources) names⟩

/-- A primitive with three faults: two names are taken, and nothing implements it. -/
def faulty : Definition :=
  { Definition.ofKind "a.P" .primitive with
    interfaces := ["x", "x", "y", "y"].map fun name => .ofRole .server name "s" }

def faultyUnder (policy : ErrorPolicy) : CompilationResult :=
  registeredOnly.compile (.ofDefinitions { Options.default with errorPolicy := policy } [faulty])
    ["a.P", "a.Q"]

theorem stops_at_first_fault :
    (faultyUnder .collect).SameUpToFirst (faultyUnder .failFast) ∧
      (faultyUnder .collect).errors.map (·.kind) =
        [.duplicateName, .duplicateName, .unimplementedInterface, .definitionNotFound] ∧
      (faultyUnder .failFast).errors = [.error .duplicateName .generated
        "duplicate interface name 'x'"] :=
  ⟨(stops_at_first_error registeredOnly
      (AnnotationRegistry.runsParallel_predefined Pairing.watches_firstError.views) .default
      ["a.P", "a.Q"]).1 [faulty], by decide +kernel, by decide +kernel⟩

end FrontEnd

end Adl
