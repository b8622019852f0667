import Adl.Proofs.Loading.Evolution

namespace Adl

open Step

/-! Steps that run side by side. From related states both give the same and reach related states,
unless the right one stops: then the left one goes on alone, and what it leaves of the pair is that
the right one stopped. -/

/-- Which states of two runs belong together while both run, and once the right one stopped. -/
structure Pairing (State : Type) where
  Related : State → State → Prop
  Stopped : State → State → Prop

variable {State Draft Part α β : Type}

namespace Pairing

/-- Drafts beside paired states are the same. -/
def drafting (pairing : Pairing State) (Draft : Type) : Pairing (State × Draft) where
  Related left right := pairing.Related left.1 right.1 ∧ left.2 = right.2
  Stopped left right := pairing.Stopped left.1 right.1

/-- A change of both states, or of either once the right step stopped. -/
structure Keeps (pairing : Pairing State) (change : State → State) : Prop where
  related : ∀ l r, pairing.Related l r → pairing.Related (change l) (change r)
  stoppedLeft : ∀ l r, pairing.Stopped l r → pairing.Stopped (change l) r
  stoppedRight : ∀ l r, pairing.Stopped l r → pairing.Stopped l (change r)

end Pairing

namespace Step

structure Parallel (pairing : Pairing State) (left right : Step State α) : Prop where
  along : ∀ l r, pairing.Related l r →
    ((left l).1 = (right r).1 ∧ pairing.Related (left l).2 (right r).2) ∨
      ((right r).1 = .error .aborted ∧ pairing.Stopped (left l).2 (right r).2)
  alone : ∀ l r, pairing.Stopped l r → pairing.Stopped (left l).2 r

namespace Parallel

variable {pairing : Pairing State} {left right : Step State α} {l r : State}

/-! ## Sequences -/

protected theorem pure (value : α) :
    Parallel pairing (Pure.pure value : Step State α) (Pure.pure value) where
  along _ _ related := .inl ⟨rfl, related⟩
  alone _ _ stopped := stopped

protected theorem fail (error : LoadError) :
    Parallel pairing (Step.fail error : Step State α) (Step.fail error) where
  along _ _ related := .inl ⟨rfl, related⟩
  alone _ _ stopped := stopped

theorem bind {firstLeft firstRight : Step State β} {nextLeft nextRight : β → Step State α}
    (first : Parallel pairing firstLeft firstRight)
    (next : ∀ value, Parallel pairing (nextLeft value) (nextRight value)) :
    Parallel pairing (firstLeft >>= nextLeft) (firstRight >>= nextRight) where
  along l r related := by
    have ran := first.along l r related
    rw [bind_apply, bind_apply]
    rcases leftRun : firstLeft l with ⟨leftResult, leftState⟩
    rcases rightRun : firstRight r with ⟨rightResult, rightState⟩
    rw [leftRun, rightRun] at ran
    rcases ran with ⟨same, relatedAfter⟩ | ⟨aborted, stopped⟩
    · cases same
      cases leftResult with
      | ok value => exact (next value).along leftState rightState relatedAfter
      | error error => exact .inl ⟨rfl, relatedAfter⟩
    · cases aborted
      cases leftResult with
      | ok value => exact .inr ⟨rfl, (next value).alone leftState rightState stopped⟩
      | error error => exact .inr ⟨rfl, stopped⟩
  alone l r stopped := by
    have stoppedAfter := first.alone l r stopped
    rw [bind_apply]
    rcases leftRun : firstLeft l with ⟨leftResult, leftState⟩
    rw [leftRun] at stoppedAfter
    cases leftResult with
    | ok value => exact (next value).alone leftState r stoppedAfter
    | error error => exact stoppedAfter

/-- What is read of related states may differ where the right step does not look at the
difference. -/
theorem reading {first : Step State β} (view : State → β) {nextLeft nextRight : β → Step State α}
    (reads : ∀ state, first state = (.ok (view state), state))
    (blind : ∀ l r, pairing.Related l r → nextRight (view r) = nextRight (view l))
    (next : ∀ state, Parallel pairing (nextLeft (view state)) (nextRight (view state))) :
    Parallel pairing (first >>= nextLeft) (first >>= nextRight) where
  along l r related := by
    rw [bind_of_ok (reads l), bind_of_ok (reads r), blind l r related]
    exact (next l).along l r related
  alone l r stopped := by
    rw [bind_of_ok (reads l)]
    exact (next l).alone l r stopped

/-- A step may look at the outcome of another if it hands on that this one stopped. -/
theorem outcome_bind {nextLeft nextRight : Except LoadError β → Step State α}
    {firstLeft firstRight : Step State β} (first : Parallel pairing firstLeft firstRight)
    (handsOn : ∀ state, nextRight (.error .aborted) state = (.error .aborted, state))
    (next : ∀ result, Parallel pairing (nextLeft result) (nextRight result)) :
    Parallel pairing (firstLeft.outcome >>= nextLeft) (firstRight.outcome >>= nextRight) where
  along l r related := by
    have ran := first.along l r related
    have leftRun : firstLeft.outcome l = (.ok (firstLeft l).1, (firstLeft l).2) := rfl
    have rightRun : firstRight.outcome r = (.ok (firstRight r).1, (firstRight r).2) := rfl
    rw [bind_of_ok leftRun, bind_of_ok rightRun]
    rcases ran with ⟨same, relatedAfter⟩ | ⟨aborted, stopped⟩
    · rw [← same]
      exact (next _).along _ _ relatedAfter
    · rw [aborted, handsOn]
      exact .inr ⟨rfl, (next _).alone _ _ stopped⟩
  alone l r stopped := by
    have leftRun : firstLeft.outcome l = (.ok (firstLeft l).1, (firstLeft l).2) := rfl
    rw [bind_of_ok leftRun]
    exact (next _).alone _ _ (first.alone l r stopped)

theorem ending {change : State → State} (step : Parallel pairing left right)
    (keeps : pairing.Keeps change) :
    Parallel pairing (left.ending change) (right.ending change) where
  along l r related :=
    (step.along l r related).imp (And.imp_right (keeps.related _ _)) (And.imp_right fun stopped =>
      keeps.stoppedRight _ _ (keeps.stoppedLeft _ _ stopped))
  alone l r stopped := keeps.stoppedLeft _ _ (step.alone l r stopped)

theorem forM {items : List β} {stepLeft stepRight : β → Step State PUnit}
    (each : ∀ item ∈ items, Parallel pairing (stepLeft item) (stepRight item)) :
    Parallel pairing (items.forM stepLeft) (items.forM stepRight) := by
  induction items with
  | nil => exact .pure PUnit.unit
  | cons item rest induction =>
      change Parallel pairing (stepLeft item >>= fun _ => rest.forM stepLeft)
        (stepRight item >>= fun _ => rest.forM stepRight)
      exact .bind (each item List.mem_cons_self) fun _ =>
        induction fun other member => each other (List.mem_cons_of_mem _ member)

theorem foldlM {items : List β} {stepLeft stepRight : α → β → Step State α}
    (each : ∀ value item, Parallel pairing (stepLeft value item) (stepRight value item))
    (first : α) :
    Parallel pairing (items.foldlM stepLeft first) (items.foldlM stepRight first) := by
  induction items generalizing first with
  | nil => exact .pure first
  | cons item rest induction =>
      rw [List.foldlM_cons, List.foldlM_cons]
      exact .bind (each first item) induction

theorem ofExcept (result : Except MergeConflict α) :
    Parallel pairing (Step.ofExcept result : Step State α) (Step.ofExcept result) := by
  cases result with
  | ok value => exact .pure value
  | error conflict => exact .fail _

/-! ## Drafts -/

theorem lift (step : Parallel pairing left right) :
    Parallel (pairing.drafting Draft) (liftM left : Drafting State Draft α)
      (liftM right : Drafting State Draft α) where
  along l r related := by
    obtain ⟨l, draft⟩ := l
    obtain ⟨r, other⟩ := r
    obtain ⟨relatedStates, rfl⟩ := related
    rw [Drafting.lift_apply, Drafting.lift_apply]
    exact (step.along l r relatedStates).imp (And.imp_right fun after => ⟨after, rfl⟩) id
  alone l r stopped := step.alone l.1 r.1 stopped

theorem draft : Parallel (pairing.drafting Draft) Drafting.draft Drafting.draft where
  along _ _ related := .inl ⟨congrArg Except.ok related.2, related⟩
  alone _ _ stopped := stopped

theorem modifyDraft (change : Draft → Draft) :
    Parallel (pairing.drafting Draft) (Drafting.modifyDraft change) (Drafting.modifyDraft change) where
  along _ _ related := .inl ⟨rfl, related.1, congrArg change related.2⟩
  alone _ _ stopped := stopped

theorem onPart {get : Draft → Part} {set : Part → Draft → Draft}
    {left right : Drafting State Part α} (step : Parallel (pairing.drafting Part) left right) :
    Parallel (pairing.drafting Draft) (Drafting.onPart get set left)
      (Drafting.onPart get set right) where
  along l r related := by
    obtain ⟨l, draft⟩ := l
    obtain ⟨r, other⟩ := r
    obtain ⟨relatedStates, rfl⟩ := related
    refine (step.along (l, get draft) (r, get draft) ⟨relatedStates, rfl⟩).imp ?_ id
    exact And.imp_right fun after => ⟨after.1, congrArg (set · draft) after.2⟩
  alone l r stopped := step.alone (l.1, get l.2) (r.1, get l.2) stopped

theorem stopped_eachFrom {visit : Nat → Drafting State Draft α}
    (alone : ∀ index (l r : State × Draft), (pairing.drafting Draft).Stopped l r →
      (pairing.drafting Draft).Stopped (visit index l).2 r)
    (index : Nat) (items : List Draft) (l r : State) (stopped : pairing.Stopped l r) :
    pairing.Stopped (Drafting.eachFrom visit index items l).2.1 r := by
  induction items generalizing l index with
  | nil => exact stopped
  | cons item rest induction =>
      have stoppedAfter : pairing.Stopped (visit index (l, item)).2.1 r :=
        alone index (l, item) (r, item) stopped
      unfold Drafting.eachFrom
      rcases run : visit index (l, item) with ⟨result, reached, changed⟩
      rw [run] at stoppedAfter
      cases result with
      | error error => exact stoppedAfter
      | ok value =>
          have others := induction (index + 1) reached stoppedAfter
          dsimp only
          rcases restRun : Drafting.eachFrom visit (index + 1) rest reached with
            ⟨_ | values, final, items⟩ <;>
          · rw [restRun] at others
            exact others

theorem eachFrom {visitLeft visitRight : Nat → Drafting State Draft α}
    (visit : ∀ index, Parallel (pairing.drafting Draft) (visitLeft index) (visitRight index))
    (index : Nat) : Parallel (pairing.drafting (List Draft))
      (fun pair => Drafting.eachFrom visitLeft index pair.2 pair.1)
      (fun pair => Drafting.eachFrom visitRight index pair.2 pair.1) where
  along l r related := by
    obtain ⟨l, items⟩ := l
    obtain ⟨r, others⟩ := r
    obtain ⟨relatedStates, rfl⟩ := related
    dsimp only
    induction items generalizing l r index with
    | nil => exact .inl ⟨rfl, relatedStates, rfl⟩
    | cons item rest induction =>
        have ran := (visit index).along (l, item) (r, item) ⟨relatedStates, rfl⟩
        have alone := stopped_eachFrom (fun index => (visit index).alone)
        unfold Drafting.eachFrom
        rcases leftRun : visitLeft index (l, item) with ⟨leftResult, leftState, leftItem⟩
        rcases rightRun : visitRight index (r, item) with ⟨rightResult, rightState, rightItem⟩
        rw [leftRun, rightRun] at ran
        rcases ran with ⟨same, relatedAfter, sameItem⟩ | ⟨aborted, stopped⟩
        · cases same
          cases sameItem
          cases leftResult with
          | error error => exact .inl ⟨rfl, relatedAfter, rfl⟩
          | ok value =>
              have others := induction (index + 1) leftState rightState relatedAfter
              dsimp only
              rcases leftRest : Drafting.eachFrom visitLeft (index + 1) rest leftState with
                ⟨leftValues, leftEnd, leftItems⟩
              rcases rightRest : Drafting.eachFrom visitRight (index + 1) rest rightState with
                ⟨rightValues, rightEnd, rightItems⟩
              rw [leftRest, rightRest] at others
              rcases others with ⟨sameValues, relatedEnd, sameItems⟩ | ⟨aborted, stopped⟩
              · cases sameValues
                cases sameItems
                cases leftValues with
                | error error => exact .inl ⟨rfl, relatedEnd, rfl⟩
                | ok values => exact .inl ⟨rfl, relatedEnd, rfl⟩
              · cases aborted
                cases leftValues with
                | error error => exact .inr ⟨rfl, stopped⟩
                | ok values => exact .inr ⟨rfl, stopped⟩
        · cases aborted
          refine .inr ⟨rfl, ?_⟩
          cases leftResult with
          | error error => exact stopped
          | ok value =>
              have goesOn := alone (index + 1) rest leftState rightState stopped
              dsimp only
              rcases leftRest : Drafting.eachFrom visitLeft (index + 1) rest leftState with
                ⟨_ | values, leftEnd, leftItems⟩ <;>
              · rw [leftRest] at goesOn
                exact goesOn
  alone l r stopped :=
    stopped_eachFrom (fun index => (visit index).alone) index l.2 l.1 r.1 stopped

/-- Visiting the items of a list in order. -/
theorem each {visitLeft visitRight : Nat → Drafting State Draft α}
    (visit : ∀ index, Parallel (pairing.drafting Draft) (visitLeft index) (visitRight index)) :
    Parallel (pairing.drafting (List Draft)) (Drafting.each visitLeft)
      (Drafting.each visitRight) :=
  eachFrom visit 0

end Parallel

end Step

/-! ## Compilations

The contexts of two compilations differ in their policies at most. What neither reports nor
changes the names that are loading keeps them paired. -/

namespace Context

def withPolicies (context : Context) (option policy : ErrorPolicy) : Context :=
  { context with
    options := { context.options with errorPolicy := option }
    log := { context.log with policy } }

/-- A change that takes no notice of policies and leaves options, errors, the loaded definitions and
the names that are loading as they are. -/
structure IsQuiet (change : Context → Context) : Prop where
  blind : ∀ context option policy,
    change (context.withPolicies option policy) = (change context).withPolicies option policy
  options : ∀ context, (change context).options = context.options
  policy : ∀ context, (change context).log.policy = context.log.policy
  errors : ∀ context, (change context).log.errors = context.log.errors
  loading : ∀ context, (change context).loading = context.loading
  cache : ∀ context, (change context).cache = context.cache

/-- A change that writes to no slot that there is. -/
def KeepsSlots (change : Context → Context) : Prop :=
  ∀ context, context.arena.size ≤ (change context).arena.size ∧
    ∀ id < context.arena.size, (change context).definition id = context.definition id

theorem KeepsSlots.of_arena {change : Context → Context}
    (same : ∀ context, (change context).arena = context.arena) : KeepsSlots change :=
  fun context => ⟨Nat.le_of_eq (congrArg Array.size (same context)).symm, fun id _ => by
    rw [definition, definition, same]⟩

theorem keepsSlots_allocate (added : Definition) :
    KeepsSlots fun context => (context.allocate added).2 := fun context => by
  refine ⟨?_, fun _ within => definition_push context added within⟩
  change context.arena.size ≤ (context.arena.push added).size
  rw [Array.size_push]
  exact Nat.le_succ _

theorem isQuiet_replace (id : DefinitionId) (definition : Definition) :
    IsQuiet fun context => context.replace id definition :=
  ⟨fun _ _ _ => rfl, fun _ => rfl, fun _ => rfl, fun _ => rfl, fun _ => rfl, fun _ => rfl⟩

theorem isQuiet_infer (definition parameter : String) (type : ParameterType) :
    IsQuiet fun context => context.infer definition parameter type := by
  have isKnown (context : Context) (option policy : ErrorPolicy) :
      (context.withPolicies option policy).inferredType? definition parameter =
        context.inferredType? definition parameter := rfl
  constructor
  · intro context option policy
    simp only [infer, isKnown]
    split <;> rfl
  all_goals
    intro context
    simp only [infer]
    split <;> rfl

theorem arena_infer (context : Context) (definition parameter : String) (type : ParameterType) :
    (context.infer definition parameter type).arena = context.arena := by
  simp only [infer]
  split <;> rfl

end Context

namespace Pairing.Keeps

variable {pairing : Pairing Context} {change : Context → Context} (keeps : pairing.Keeps change)
include keeps

/-- A step that cannot fail and gives what is the same of paired contexts. -/
theorem runs {step : Loading α} {view : Context → α}
    (runs : ∀ context, step context = (.ok (view context), change context))
    (same : ∀ l r, pairing.Related l r → view r = view l) : Parallel pairing step step where
  along l r related := by
    rw [runs, runs, same l r related]
    exact .inl ⟨rfl, keeps.related l r related⟩
  alone l r stopped := by
    rw [runs]
    exact keeps.stoppedLeft l r stopped

theorem update : Parallel pairing (Loading.update change) (Loading.update change) where
  along l r related := .inl ⟨rfl, keeps.related l r related⟩
  alone l r stopped := keeps.stoppedLeft l r stopped

end Pairing.Keeps

/-- A pairing of compilations that only reports, loads and what comes to stand in the arena take
apart. -/
structure Pairing.Views (pairing : Pairing Context) : Prop where
  blind : ∀ {l r}, pairing.Related l r → ∃ option policy, r = l.withPolicies option policy
  keeps : ∀ change, Context.IsQuiet change → (∀ context, (change context).arena = context.arena) →
    pairing.Keeps change
  records : ∀ diagnostic, Parallel pairing (Loading.record diagnostic) (Loading.record diagnostic)

/-- A pairing of compilations that only reports, loads and writes to slots take apart. -/
structure Pairing.Observes (pairing : Pairing Context) : Prop where
  blind : ∀ {l r}, pairing.Related l r → ∃ option policy, r = l.withPolicies option policy
  keeps : ∀ change, Context.IsQuiet change → Context.KeepsSlots change → pairing.Keeps change
  records : ∀ diagnostic, Parallel pairing (Loading.record diagnostic) (Loading.record diagnostic)

/-- A pairing of compilations that only reports and loads take apart. -/
structure Pairing.Watches (pairing : Pairing Context) : Prop extends pairing.Observes where
  writes : ∀ id definition, pairing.Keeps fun context => context.replace id definition

namespace Pairing.Views

variable {pairing : Pairing Context} (views : pairing.Views) {left right : Loading α}
include views

/-- Reading the context, where policies are not looked at. -/
theorem context {left right : Context → Loading α}
    (blind : ∀ context option policy, right (context.withPolicies option policy) = right context)
    (next : ∀ context, Parallel pairing (left context) (right context)) :
    Parallel pairing (Loading.context >>= left) (Loading.context >>= right) := by
  refine .reading id (fun _ => rfl) (fun l r related => ?_) next
  obtain ⟨option, policy, rfl⟩ := views.blind related
  exact blind l option policy

theorem contextDrafting {left right : Context → Revising Draft α}
    (blind : ∀ context option policy, right (context.withPolicies option policy) = right context)
    (next : ∀ context, Parallel (pairing.drafting Draft) (left context) (right context)) :
    Parallel (pairing.drafting Draft)
      ((liftM Loading.context : Revising Draft Context) >>= left)
      ((liftM Loading.context : Revising Draft Context) >>= right) := by
  refine .reading Prod.fst (fun _ => rfl) (fun l r related => ?_) fun pair => next pair.1
  obtain ⟨option, policy, isRight⟩ := views.blind related.1
  change right r.1 = right l.1
  rw [isRight]
  exact blind l.1 option policy

theorem same {view : Context → β}
    (blind : ∀ context option policy, view (context.withPolicies option policy) = view context)
    (l r : Context) (related : pairing.Related l r) : view r = view l := by
  obtain ⟨option, policy, rfl⟩ := views.blind related
  exact blind l option policy

/-- A step that cannot fail and changes the context quietly. -/
theorem quiet {step : Loading α} {view : Context → α} {change : Context → Context}
    (runs : ∀ context, step context = (.ok (view context), change context))
    (blind : ∀ context option policy, view (context.withPolicies option policy) = view context)
    (isQuiet : Context.IsQuiet change)
    (arena : ∀ context, (change context).arena = context.arena) : Parallel pairing step step :=
  (views.keeps change isQuiet arena).runs runs (views.same blind)

theorem update {change : Context → Context} (isQuiet : Context.IsQuiet change)
    (arena : ∀ context, (change context).arena = context.arena) :
    Parallel pairing (Loading.update change) (Loading.update change) :=
  (views.keeps change isQuiet arena).update

theorem definition (id : DefinitionId) :
    Parallel pairing (Loading.definition id) (Loading.definition id) :=
  views.quiet (fun _ => rfl) (fun _ _ _ => rfl)
    ⟨fun _ _ _ => rfl, fun _ => rfl, fun _ => rfl, fun _ => rfl, fun _ => rfl, fun _ => rfl⟩
    fun _ => rfl

theorem infer (definition parameter : String) (type : ParameterType) :
    Parallel pairing (Loading.infer definition parameter type)
      (Loading.infer definition parameter type) :=
  views.quiet (fun _ => rfl) (fun _ _ _ => rfl) (Context.isQuiet_infer definition parameter type)
    fun context => context.arena_infer definition parameter type

theorem warn (kind : DiagnosticKind) (span : Span) (message : String) :
    Parallel pairing (Loading.warn kind span message) (Loading.warn kind span message) :=
  views.update
    ⟨fun _ _ _ => rfl, fun _ => rfl, fun _ => rfl, fun _ => rfl, fun _ => rfl, fun _ => rfl⟩
    fun _ => rfl

theorem recordError (kind : DiagnosticKind) (span : Span) (message : String) :
    Parallel pairing (Loading.recordError kind span message)
      (Loading.recordError kind span message) :=
  views.records _

theorem recordAll (diagnostics : List Diagnostic) :
    Parallel pairing (Loading.recordAll diagnostics) (Loading.recordAll diagnostics) :=
  .forM fun diagnostic _ => views.records diagnostic

theorem orRecorded (step : Parallel pairing left right) (span : Span) :
    Parallel pairing (left.orRecorded span) (right.orRecorded span) := by
  refine .outcome_bind step (fun _ => rfl) fun result => ?_
  cases result with
  | ok value => exact .pure _
  | error error =>
      cases error with
      | fatal diagnostic => exact .bind (views.records _) fun _ => .pure _
      | aborted => exact .fail _
      | internal error => exact .fail _

end Pairing.Views

namespace Pairing.Observes

variable {pairing : Pairing Context} (observes : pairing.Observes)
include observes

theorem views : pairing.Views where
  blind := observes.blind
  keeps change isQuiet arena := observes.keeps change isQuiet (.of_arena arena)
  records := observes.records

/-- A step that cannot fail, changes the context quietly and writes to no slot that there is. -/
theorem quiet {step : Loading α} {view : Context → α} {change : Context → Context}
    (runs : ∀ context, step context = (.ok (view context), change context))
    (blind : ∀ context option policy, view (context.withPolicies option policy) = view context)
    (isQuiet : Context.IsQuiet change) (keepsSlots : Context.KeepsSlots change) :
    Parallel pairing step step :=
  (observes.keeps change isQuiet keepsSlots).runs runs (observes.views.same blind)

theorem register (name : String) (definition : Definition) :
    Parallel pairing (Loading.register name definition) (Loading.register name definition) :=
  observes.quiet (fun _ => rfl) (fun _ _ _ => rfl)
    ⟨fun _ _ _ => rfl, fun _ => rfl, fun _ => rfl, fun _ => rfl, fun _ => rfl, fun _ => rfl⟩
    (Context.keepsSlots_allocate definition)

theorem allocate (definition : Definition) :
    Parallel pairing (Loading.allocate definition) (Loading.allocate definition) :=
  observes.quiet (fun _ => rfl) (fun _ _ _ => rfl)
    ⟨fun _ _ _ => rfl, fun _ => rfl, fun _ => rfl, fun _ => rfl, fun _ => rfl, fun _ => rfl⟩
    (Context.keepsSlots_allocate definition)

end Pairing.Observes

namespace Pairing.Watches

variable {pairing : Pairing Context} (watches : pairing.Watches)
include watches

theorem replace (id : DefinitionId) (definition : Definition) :
    Parallel pairing (Loading.replace id definition) (Loading.replace id definition) :=
  (watches.writes id definition).update

theorem revise (id : DefinitionId) {left right : Revising Definition Unit}
    (revision : Parallel (pairing.drafting Definition) left right) :
    Parallel pairing (Loading.revise id left) (Loading.revise id right) := by
  have stores := watches.writes id
  constructor
  · intro l r related
    obtain ⟨option, policy, isRight⟩ := watches.blind related
    have sameDefinition : l.definition id = r.definition id := by rw [isRight]; rfl
    have ran := revision.along (l, l.definition id) (r, r.definition id) ⟨related, sameDefinition⟩
    unfold Loading.revise
    rcases leftRun : left (l, l.definition id) with ⟨leftResult, leftState, leftDraft⟩
    rcases rightRun : right (r, r.definition id) with ⟨rightResult, rightState, rightDraft⟩
    rw [leftRun, rightRun] at ran
    rcases ran with ⟨same, relatedAfter, sameDraft⟩ | ⟨aborted, stopped⟩
    · cases same
      cases sameDraft
      exact .inl ⟨rfl, (stores leftDraft).related _ _ relatedAfter⟩
    · cases aborted
      exact .inr ⟨rfl, (stores rightDraft).stoppedRight _ _
        ((stores leftDraft).stoppedLeft _ _ stopped)⟩
  · intro l r stopped
    have stoppedAfter := revision.alone (l, l.definition id) (r, l.definition id) stopped
    exact (stores _).stoppedLeft _ _ stoppedAfter

end Pairing.Watches

end Adl
