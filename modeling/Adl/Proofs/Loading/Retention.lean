import Adl.Proofs.Definition.Retention
import Adl.Proofs.Loading.CacheCoherence
import Adl.Proofs.Loading.ParallelStages

namespace Adl

open Step

/-! What loading leaves of the definitions that there are. Whatever a load comes to, each of them
is still in its slot with all that it declares; only where the first error stops the compilation
while a definition takes over from its parents, nothing is left of this one. -/

namespace Context

/-- Every definition that was there still declares what it did. -/
structure Retained (before after : Context) : Prop where
  policy : after.log.policy = before.log.policy
  size : before.arena.size ≤ after.arena.size
  definition : ∀ id < before.arena.size, (after.definition id).Retains (before.definition id)

/-- The first error has stopped the compilation. -/
structure HasStopped (context : Context) : Prop where
  policy : context.log.policy = .failFast
  errors : context.log.errors ≠ []

/-- One definition is empty, since the compilation was stopped. -/
structure Emptied (before after : Context) (lost : DefinitionId) : Prop extends HasStopped after where
  same : before.log.policy = .failFast
  size : before.arena.size ≤ after.arena.size
  definition : ∀ id < before.arena.size,
    (after.definition id).Retains (before.definition id) ∨
      id = lost ∧ after.definition id = .blank false

variable {origin before middle after : Context} {lost : DefinitionId}

namespace Retained

theorem refl (context : Context) : Retained context context :=
  ⟨rfl, Nat.le_refl _, fun _ _ => .refl _⟩

theorem trans (first : before.Retained middle) (second : middle.Retained after) :
    before.Retained after where
  policy := second.policy.trans first.policy
  size := Nat.le_trans first.size second.size
  definition id within := (second.definition id (Nat.lt_of_lt_of_le within first.size)).trans
    (first.definition id within)

theorem of_reports (reports : Reports before after) : before.Retained after where
  policy := reports.policy
  size := Nat.le_of_eq (congrArg Array.size reports.arena).symm
  definition id _ := by
    rw [reports.definition]
    exact .refl _

theorem of_keepsSlots {change : Context → Context} (keepsSlots : KeepsSlots change)
    (policy : (change before).log.policy = before.log.policy) : before.Retained (change before) where
  policy := policy
  size := (keepsSlots before).1
  definition id within := by
    rw [(keepsSlots before).2 id within]
    exact .refl _

/-- What is written to a slot declares what stood there at the start. -/
theorem replace (retained : origin.Retained after) {id : DefinitionId} {written : Definition}
    (retains : id < origin.arena.size → written.Retains (origin.definition id)) :
    origin.Retained (after.replace id written) where
  policy := retained.policy
  size := by
    change _ ≤ (after.arena.setIfInBounds id written).size
    rw [Array.size_setIfInBounds]
    exact retained.size
  definition other within := by
    by_cases same : id = other
    · subst same
      rw [definition_replace after written (Nat.lt_of_lt_of_le within retained.size)]
      exact retains within
    · rw [definition_replace_of_ne after written same]
      exact retained.definition other within

end Retained

namespace Emptied

theorem keepsSlots {change : Context → Context} (keepsSlots : KeepsSlots change)
    (policy : (change after).log.policy = after.log.policy)
    (errors : (change after).log.errors = after.log.errors) (emptied : origin.Emptied after lost) :
    origin.Emptied (change after) lost where
  policy := policy.trans emptied.policy
  errors := errors ▸ emptied.errors
  same := emptied.same
  size := Nat.le_trans emptied.size (keepsSlots after).1
  definition id within := by
    rw [(keepsSlots after).2 id (Nat.lt_of_lt_of_le within emptied.size)]
    exact emptied.definition id within

theorem replace (emptied : origin.Emptied after lost) {id : DefinitionId} {written : Definition}
    (retains : id < origin.arena.size → written.Retains (origin.definition id)) :
    origin.Emptied (after.replace id written) lost where
  policy := emptied.policy
  errors := emptied.errors
  same := emptied.same
  size := by
    change _ ≤ (after.arena.setIfInBounds id written).size
    rw [Array.size_setIfInBounds]
    exact emptied.size
  definition other within := by
    by_cases same : id = other
    · subst same
      rw [definition_replace after written (Nat.lt_of_lt_of_le within emptied.size)]
      exact .inl (retains within)
    · rw [definition_replace_of_ne after written same]
      exact emptied.definition other within

/-- The one definition that is emptied. -/
theorem of_retained (retained : origin.Retained after) (stopped : after.HasStopped)
    (id : DefinitionId) : origin.Emptied (after.replace id (.blank false)) id where
  policy := stopped.policy
  errors := stopped.errors
  same := retained.policy.symm.trans stopped.policy
  size := by
    change _ ≤ (after.arena.setIfInBounds id _).size
    rw [Array.size_setIfInBounds]
    exact retained.size
  definition other within := by
    by_cases same : id = other
    · subst same
      rw [definition_replace after _ (Nat.lt_of_lt_of_le within retained.size)]
      exact .inr ⟨rfl, rfl⟩
    · rw [definition_replace_of_ne after _ same]
      exact .inl (retained.definition other within)

end Emptied

end Context

open Context

/-! ## Runs that retain -/

/-- A compilation beside itself, in which the definitions of `origin` are retained, or which was
stopped and has emptied one of them. -/
def Pairing.retaining (origin : Context) : Pairing Context where
  Related left right := left = right ∧ origin.Retained left
  Stopped _ right := ∃ lost, origin.Emptied right lost

namespace Pairing

variable {origin context : Context} {α : Type}

theorem keeps_retaining {change : Context → Context} (keepsSlots : KeepsSlots change)
    (policy : ∀ context, (change context).log.policy = context.log.policy)
    (errors : ∀ context, (change context).log.errors = context.log.errors) :
    (retaining origin).Keeps change where
  related := by
    rintro context _ ⟨rfl, retained⟩
    exact ⟨rfl, retained.trans (.of_keepsSlots keepsSlots (policy context))⟩
  stoppedLeft _ _ := id
  stoppedRight _ right := Exists.imp fun _ => .keepsSlots keepsSlots (policy right) (errors right)

/-- How a step that runs beside itself ends. -/
theorem retaining_iff {step : Loading α} :
    Parallel (retaining origin) step step ↔ ∀ context, origin.Retained context →
      origin.Retained (step context).2 ∨
        (step context).1 = .error .aborted ∧ ∃ lost, origin.Emptied (step context).2 lost := by
  constructor
  · intro parallel context retained
    exact (parallel.along context context ⟨rfl, retained⟩).imp (·.2.2) id
  · intro ends
    constructor
    · rintro context _ ⟨rfl, retained⟩
      exact (ends context retained).imp (⟨rfl, rfl, ·⟩) id
    · exact fun _ _ => id

/-- A step that retains the definitions of each context it starts from. -/
theorem parallel_retaining {step : Loading α}
    (retains : ∀ context : Context, context.Retained (step context).2) :
    Parallel (retaining origin) step step :=
  retaining_iff.mpr fun context retained => .inl (retained.trans (retains context))

theorem observes_retaining (origin : Context) : (retaining origin).Observes where
  blind := by
    rintro context _ ⟨rfl, -⟩
    exact ⟨context.options.errorPolicy, context.log.policy, rfl⟩
  keeps _ isQuiet keepsSlots := keeps_retaining keepsSlots isQuiet.policy isQuiet.errors
  records diagnostic := parallel_retaining fun _ => .of_reports (Loading.agree_record diagnostic).leads

end Pairing

/-! ## Drafts that keep what they declare -/

/-- What is read of a draft is the same after a step, whatever the context. -/
def Drafting.Preserves {Draft α β : Type} (read : Draft → β) (step : Revising Draft α) : Prop :=
  ∀ context draft, read (step (context, draft)).2.2 = read draft

namespace Drafting.Preserves

variable {Draft Part α β γ : Type} {read : Draft → γ}

theorem bind {first : Revising Draft β} {next : β → Revising Draft α}
    (begins : Preserves read first) (continues : ∀ value, Preserves read (next value)) :
    Preserves read (first >>= next) := by
  intro context draft
  have begun := begins context draft
  rw [bind_apply]
  rcases outcome : first (context, draft) with ⟨value | value, reached, between⟩
  · rw [outcome] at begun
    exact begun
  · rw [outcome] at begun
    exact (continues value reached between).trans begun

theorem pure (value : α) : Preserves read (Pure.pure value : Revising Draft α) :=
  fun _ _ => rfl

theorem draft : Preserves read (Drafting.draft : Revising Draft Draft) :=
  fun _ _ => rfl

theorem lift (step : Loading α) : Preserves read (liftM step : Revising Draft α) :=
  fun _ _ => rfl

theorem modifyDraft {change : Draft → Draft} (same : ∀ draft, read (change draft) = read draft) :
    Preserves read (Drafting.modifyDraft change : Revising Draft Unit) :=
  fun _ draft => same draft

theorem onPart {get : Draft → Part} {set : Part → Draft → Draft} (step : Revising Part α)
    (same : ∀ part draft, read (set part draft) = read draft) :
    Preserves read (Drafting.onPart get set step) :=
  fun _ draft => same _ draft

theorem forM {items : List β} {step : β → Revising Draft PUnit}
    (each : ∀ item, Preserves read (step item)) : Preserves read (items.forM step) := by
  induction items with
  | nil => exact fun _ _ => rfl
  | cons item rest induction => exact (each item).bind fun _ => induction

/-- What is the same of each item is the same of all. -/
theorem each {visit : Nat → Revising Draft α} (preserves : ∀ index, Preserves read (visit index)) :
    Preserves (List.map read) (Drafting.each visit) := by
  have visited : ∀ (items : List Draft) (index : Nat) (context : Context),
      (Drafting.eachFrom visit index items context).2.2.map read = items.map read := by
    intro items
    induction items with
    | nil => exact fun _ _ => rfl
    | cons item rest induction =>
        intro index context
        have first := preserves index context item
        unfold Drafting.eachFrom
        rcases outcome : visit index (context, item) with ⟨value | value, reached, changed⟩
        · rw [outcome] at first
          simp only [List.map_cons, first]
        · rw [outcome] at first
          have others := induction (index + 1) reached
          dsimp only
          rcases run : Drafting.eachFrom visit (index + 1) rest reached with
            ⟨_ | values, later, changedRest⟩ <;>
          · rw [run] at others
            simp only [List.map_cons, first, others]
  exact fun context items => visited items 0 context

end Drafting.Preserves

/-! ## Revisions -/

/-- How a revision of a definition may end: with a draft that declares what `base` does, or,
where it was stopped, with this or one other definition empty. -/
def SavedAt {α : Type} (origin : Context) (base : Definition)
    (ended : Except LoadError α × Context × Definition) : Prop :=
  origin.Retained ended.2.1 ∧ ended.2.2.Retains base ∨
    ended.1 = .error .aborted ∧
      ((∃ lost, origin.Emptied ended.2.1 lost) ∧ ended.2.2.Retains base ∨
        origin.Retained ended.2.1 ∧ ended.2.1.HasStopped ∧ ended.2.2 = .blank false)

def Saves {α : Type} (origin : Context) (base : Definition) (revision : Revising Definition α) :
    Prop :=
  ∀ context draft, origin.Retained context → draft.Retains base →
    SavedAt origin base (revision (context, draft))

namespace Saves

variable {α β : Type} {origin : Context} {base : Definition}

theorem bind {first : Revising Definition β} {next : β → Revising Definition α}
    (begins : Saves origin base first) (continues : ∀ value, Saves origin base (next value)) :
    Saves origin base (first >>= next) := by
  intro context draft retained retains
  have begun := begins context draft retained retains
  rw [bind_apply]
  rcases outcome : first (context, draft) with ⟨error | value, reached, between⟩
  · rw [outcome] at begun
    refine begun.imp id (And.imp_left fun aborted => ?_)
    cases aborted
    rfl
  · rw [outcome] at begun
    rcases begun with ⟨retainedAfter, retainsAfter⟩ | ⟨aborted, -⟩
    · exact continues value reached between retainedAfter retainsAfter
    · exact nomatch aborted

theorem draft : Saves origin base Drafting.draft :=
  fun _ _ retained retains => .inl ⟨retained, retains⟩

theorem lift {step : Loading α} (parallel : Parallel (.retaining origin) step step) :
    Saves origin base (liftM step : Revising Definition α) := by
  intro context draft retained retains
  exact (Pairing.retaining_iff.mp parallel context retained).imp (⟨·, retains⟩)
    fun ⟨aborted, emptied⟩ => ⟨aborted, .inl ⟨emptied, retains⟩⟩

theorem forM {items : List β} {step : β → Revising Definition PUnit}
    (each : ∀ item, Saves origin base (step item)) : Saves origin base (items.forM step) := by
  induction items with
  | nil => exact fun _ _ retained retains => .inl ⟨retained, retains⟩
  | cons item rest induction => exact (each item).bind fun _ => induction

/-- A part of the draft is revised, but not what it declares. -/
theorem onPart {Part : Type} {get : Definition → Part} {set : Part → Definition → Definition}
    {step : Revising Part α}
    (parallel : Parallel ((Pairing.retaining origin).drafting Part) step step)
    (sets : ∀ context draft, (set (step (context, get draft)).2.2 draft).Retains draft) :
    Saves origin base (Drafting.onPart get set step) := by
  intro context draft retained retains
  have kept := (sets context draft).trans retains
  rcases parallel.along (context, get draft) (context, get draft) ⟨⟨rfl, retained⟩, rfl⟩ with
    ⟨-, ⟨-, after⟩, -⟩ | ⟨aborted, emptied⟩
  · exact .inl ⟨after, kept⟩
  · exact .inr ⟨aborted, .inl ⟨emptied, kept⟩⟩

theorem modifyDraft {change : Definition → Definition}
    (retains : ∀ draft : Definition, (change draft).Retains draft) :
    Saves origin base (Drafting.modifyDraft change) :=
  fun _ draft retained kept => .inl ⟨retained, (retains draft).trans kept⟩

/-- The revised definition takes the place of the one in the slot. -/
theorem parallel_revise {revision : Revising Definition Unit}
    (saves : ∀ base, Saves origin base revision) (id : DefinitionId) :
    Parallel (Pairing.retaining origin) (Loading.revise id revision)
      (Loading.revise id revision) := by
  refine Pairing.retaining_iff.mpr fun context retained => ?_
  have saved := saves (context.definition id) context (context.definition id) retained (.refl _)
  have retains {written : Definition} (kept : written.Retains (context.definition id))
      (within : id < origin.arena.size) : written.Retains (origin.definition id) :=
    kept.trans (retained.definition id within)
  unfold Loading.revise
  rcases outcome : revision (context, context.definition id) with ⟨result, reached, draft⟩
  rw [outcome] at saved
  rcases saved with ⟨after, kept⟩ | ⟨aborted, ⟨⟨lost, emptied⟩, kept⟩ | ⟨after, stopped, isBlank⟩⟩
  · exact .inl (after.replace (retains kept))
  · exact .inr ⟨aborted, lost, emptied.replace (retains kept)⟩
  · cases isBlank
    exact .inr ⟨aborted, id, .of_retained after stopped id⟩

end Saves

/-! ## Stages that load nothing -/

/-- Edits that leave open whether the definition is a singleton. -/
structure Definition.EditsAlike (original changed : Definition) : Prop where
  edits : original.Edits changed
  singleton : changed.decorations.singleton = original.decorations.singleton

/-- From this context a step reports, and writes to one slot at most, and there what is good. -/
def Loading.Rewrites {α : Type} (context : Context) (id : DefinitionId) (Good : Definition → Prop)
    (step : Loading α) : Prop :=
  ∃ reached, Reports context reached ∧ ((step context).2 = reached ∨
    ∃ written, Good written ∧ (step context).2 = reached.replace id written)

namespace Loading.Rewrites

variable {α β : Type} {context : Context} {id : DefinitionId} {Good Weaker : Definition → Prop}

theorem pure (value : α) : Rewrites context id Good (Pure.pure value) :=
  ⟨context, .refl context, .inl rfl⟩

theorem fail (error : LoadError) : Rewrites context id Good (Step.fail error : Loading α) :=
  ⟨context, .refl context, .inl rfl⟩

theorem read {first : Loading β} {value : β} {next : β → Loading α}
    (reads : first context = (.ok value, context)) (rewrites : Rewrites context id Good (next value)) :
    Rewrites context id Good (first >>= next) := by
  unfold Rewrites
  rwa [bind_of_ok reads]

theorem write {written : Definition} (good : Good written) :
    Rewrites context id Good (Loading.replace id written) :=
  ⟨context, .refl context, .inr ⟨written, good, rfl⟩⟩

theorem replace {step : Loading Definition}
    (agree : Agree reporting context step step fun changed _ => Good changed) :
    Rewrites context id Good (step >>= Loading.replace id) := by
  have reports : Reports context (step context).2 := agree.leads
  have ended := agree.ended
  unfold Rewrites
  rw [bind_apply]
  rcases outcome : step context with ⟨error | changed, reached⟩
  · rw [outcome] at reports
    exact ⟨reached, reports, .inl rfl⟩
  · rw [outcome] at reports ended
    exact ⟨reached, reports, .inr ⟨changed, ended, rfl⟩⟩

theorem revise {revision : Revising Definition Unit}
    (edits : Agree (reporting.drafting fun _ draft => (context.definition id).Edits draft)
      (context, context.definition id) revision revision fun _ _ => True)
    (alike : Drafting.Preserves (·.decorations.singleton) revision) :
    Rewrites context id (context.definition id).EditsAlike (Loading.revise id revision) :=
  ⟨_, edits.leads, .inr ⟨_, ⟨edits.valid.2, alike context _⟩, rfl⟩⟩

theorem mono {step : Loading α} (rewrites : Rewrites context id Good step)
    (implies : ∀ written, Good written → Weaker written) : Rewrites context id Weaker step := by
  obtain ⟨reached, reports, unwritten | ⟨written, good, writes⟩⟩ := rewrites
  · exact ⟨reached, reports, .inl unwritten⟩
  · exact ⟨reached, reports, .inr ⟨written, implies written good, writes⟩⟩

theorem retained {step : Loading α} (rewrites : Rewrites context id Good step)
    (retains : ∀ written, Good written → written.Retains (context.definition id)) :
    context.Retained (step context).2 := by
  obtain ⟨reached, reports, unwritten | ⟨written, good, writes⟩⟩ := rewrites
  · exact unwritten ▸ .of_reports reports
  · exact writes ▸ (Retained.of_reports reports).replace fun _ => retains written good

/-- What holds of all definitions still does, if it holds of what is written. -/
theorem forall_definition {step : Loading α} (rewrites : Rewrites context id Good step)
    (all : ∀ other, Good (context.definition other)) (other : DefinitionId) :
    Good ((step context).2.definition other) := by
  obtain ⟨reached, reports, unwritten | ⟨written, good, writes⟩⟩ := rewrites
  · rw [unwritten, reports.definition]
    exact all other
  · rw [writes]
    exact forall_replace (fun other => reports.definition other ▸ all other) good other

end Loading.Rewrites

open Loading

namespace AnnotationRegistry

variable {registry : AnnotationRegistry} {context : Context} {id : DefinitionId}
  {Good : Definition → Prop}

theorem rewrites_checkDefinition (harmless : registry.IsHarmless) :
    Rewrites context id (context.definition id).EditsAlike (registry.checkDefinition id) := by
  refine .read rfl ?_
  split
  · refine .revise (agree_checkAll harmless _ context).forget (.forM fun path => ?_)
    refine .bind .draft fun definition => ?_
    split
    · exact .pure _
    · refine .bind (.lift _) fun typed => .modifyDraft fun draft => ?_
      cases path <;> rfl
  · exact .pure _

theorem rewrites_processStored {phase : Phase}
    (processes : Agree reporting context (registry.processDefinition phase (context.definition id))
      (registry.processDefinition phase (context.definition id)) fun changed _ => Good changed) :
    Rewrites context id Good (registry.processStored phase id) := by
  refine .read rfl ?_
  split
  · exact .replace processes
  · exact .pure _

theorem rewrites_processStoredSubComponents
    (processes : ∀ indices, Agree reporting context
      (registry.processSubComponents .onSubComponent (context.definition id) indices)
      (registry.processSubComponents .onSubComponent (context.definition id) indices)
      fun changed _ => Good changed) :
    Rewrites context id Good (registry.processStoredSubComponents id) := by
  refine .read rfl (.read rfl ?_)
  split
  · exact .pure _
  · exact .replace (processes _)

end AnnotationRegistry

section Stages

variable (context : Context) (id : DefinitionId)

theorem rewrites_delegateInterfaces :
    Rewrites context id (context.definition id).EditsAlike (delegateInterfaces id) := by
  refine .read rfl ?_
  split
  · split
    · exact .pure _
    · refine .replace ?_
      cases outcome : (context.definition id).withDelegator
          (context.definition id).delegatedInterfaces with
      | ok changed =>
          refine .pure trivial ⟨Definition.withDelegator_edits outcome, ?_⟩
          obtain ⟨_, _, _, rfl⟩ := Definition.withDelegator_eq outcome
          rfl
      | error conflict => exact .fail trivial (LoadError.isGrave_internal _)
  · exact .pure _

theorem rewrites_completeMembrane :
    Rewrites context id (context.definition id).EditsAlike (completeMembrane id) := by
  refine .read rfl ?_
  split
  · exact .fail _
  · refine .write ⟨(context.definition id).componentInterfaceFirst_edits, ?_⟩
    obtain ⟨_, -, -, same⟩ := (context.definition id).componentInterfaceFirst_eq
    rw [same]

theorem rewrites_onBindings {revision : Revising Definition Unit}
    {post : Unit → Context × Definition → Prop}
    (edits : Agree (reporting.drafting fun _ draft => (context.definition id).Edits draft)
      (context, context.definition id) revision revision post)
    (alike : Drafting.Preserves (·.decorations.singleton) revision) :
    Rewrites context id (context.definition id).EditsAlike
      (do if !(← Loading.definition id).bindings.isEmpty then Loading.revise id revision) := by
  refine .read rfl ?_
  split
  · exact .revise edits.forget alike
  · exact .pure _

theorem rewrites_normalizeBindings :
    Rewrites context id (context.definition id).EditsAlike
      (do if !(← Loading.definition id).bindings.isEmpty then
        Loading.revise id normalizeBindings) :=
  rewrites_onBindings context id (agree_normalizeBindings _)
    (.bind .draft fun _ => .bind (.lift _) fun _ => .bind (.lift _) fun _ => .modifyDraft fun _ => rfl)

theorem rewrites_checkBindings (extends? : String → String → Bool) :
    Rewrites context id (context.definition id).EditsAlike
      (do if !(← Loading.definition id).bindings.isEmpty then
        Loading.revise id (checkBindings extends?)) :=
  rewrites_onBindings context id (agree_checkBindings _ _)
    (.bind .draft fun _ => .bind (.lift _) fun _ => .bind (.onPart _ fun _ _ => rfl) fun _ => .pure _)

theorem rewrites_settleAttributes :
    Rewrites context id (context.definition id).EditsAlike (settleAttributes id) := by
  refine .read rfl ?_
  split
  · refine .revise (.bind (Drafting.agree_onPart (Drafting.agree_each
      (fun declared => Discipline.lasting_const reporting declared.Settles)
      (fun _ _ => Discipline.lasting_const reporting fun _ => True) trivial
      (fun _ _ => .inl rfl) fun _ _ declared _ _ _ =>
        (Attribute.agree_settle (context.definition id) declared).forget)
      fun _ _ _ _ settled => .of_edit (.settled _ settled)) ?_)
        (.bind (.onPart _ fun _ _ => rfl) fun _ => .pure _)
    rintro _ ⟨reached, draft⟩ valid _ _
    exact .pure valid trivial
  · exact .pure _

end Stages

/-! ## Stages that load -/

/-- Resolution changes the reference of a sub-component, and what it is resolved to. -/
theorem SubComponents.preserves_resolve {γ : Type} {read : Component → γ}
    (blind : ∀ (component : Component) definition resolved,
      read { component with definition, resolved } = read component)
    (resolver : Resolver) (id : DefinitionId) : Drafting.Preserves read (resolve resolver id) := by
  have decorates (resolved : Option Resolved) : Drafting.Preserves read (decorate resolved) :=
    .modifyDraft fun component => blind component component.definition resolved
  have accepts (component : Component) (found : DefinitionId) :
      Drafting.Preserves read (accept component found) := by
    refine .bind (.lift _) fun definition => ?_
    split
    · exact .bind (.lift _) fun _ => decorates none
    · exact decorates _
  refine .bind .draft fun component => .bind (.lift _) fun context => ?_
  dsimp only
  split
  · exact decorates _
  · exact .pure _
  · refine .bind (.onPart _ fun _ component => blind component _ component.resolved) fun found => ?_
    split
    · exact decorates none
    · exact accepts component _

/-- A stop while a definition takes over from its parents leaves nothing of it. -/
theorem Saves.takeOver {origin : Context} {base : Definition} (inherited : Definition) :
    Saves origin base (Parents.takeOver inherited) := by
  intro context draft retained retains
  have reports : Reports context
      (Loading.recordAll (Inheritance.problems draft inherited true) context).2 :=
    (Loading.agree_recordAll _).leads
  rw [Parents.takeOver_apply]
  rcases outcome : Loading.recordAll (Inheritance.problems draft inherited true) context with
    ⟨error | value, reached⟩
  · rw [outcome] at reports
    obtain ⟨rfl, policy, present⟩ := Parents.stops_of_recordAll_error outcome
    exact .inr ⟨rfl, .inr ⟨retained.trans (.of_reports reports), ⟨policy, present⟩, rfl⟩⟩
  · rw [outcome] at reports
    exact .inl ⟨retained.trans (.of_reports reports), (draft.retains_merged inherited).trans retains⟩

section Loads

variable {origin : Context} {frontEnd : FrontEnd} {load : String → Loading DefinitionId}
  {resolver : Resolver} (resolves : Resolver.Pairs (.retaining origin) resolver resolver)
include resolves

theorem TypeParameters.retaining_check (id : DefinitionId) :
    Parallel (.retaining origin) (check resolver id) (check resolver id) := by
  have views := (Pairing.observes_retaining origin).views
  refine .bind (views.definition id) fun definition => ?_
  split
  · exact Saves.parallel_revise (fun base => .bind
      (.lift (.forM fun _ _ => views.recordError _ _ _)) fun _ => .bind
        (.onPart (.each fun _ => parallel_checkConformance views resolves id)
          fun _ draft => { Definition.Retains.refl draft with }) fun _ =>
        .forM fun component => .bind .draft fun _ =>
          .lift (parallel_checkPlaceholder views _ component)) id
  · exact .pure _

theorem SubComponents.retaining_resolveAll (id : DefinitionId) :
    Parallel (.retaining origin) (resolveAll resolver id) (resolveAll resolver id) := by
  have views := (Pairing.observes_retaining origin).views
  have preserves : Drafting.Preserves Component.declared (resolve resolver id) :=
    preserves_resolve (fun _ _ _ => rfl) resolver id
  have retains (context : Context) (draft : Definition) : Definition.Retains
      { draft with components :=
          (Drafting.each (fun _ => resolve resolver id) (context, draft.components)).2.2 } draft :=
    { Definition.Retains.refl draft with
      components := Drafting.Preserves.each (fun _ => preserves) context draft.components ▸
        List.Subset.refl _ }
  refine .bind (views.definition id) fun definition => ?_
  split
  · exact Saves.parallel_revise (fun base => .bind
      (.lift (.forM fun _ _ => views.recordError _ _ _)) fun _ => .bind
        (.onPart (.each fun _ => parallel_resolve views resolves id) retains)
        fun _ => .lift (.pure _)) id
  · exact .pure _

theorem Parents.retaining_merge
    (makes : (Pairing.retaining origin).Makes frontEnd load load) (id : DefinitionId) :
    Parallel (.retaining origin) (merge resolver load id) (merge resolver load id) := by
  have views := (Pairing.observes_retaining origin).views
  have marks (draft : Definition) : (markMerged draft).Retains draft :=
    { Definition.Retains.refl draft with }
  refine Pairing.retaining_iff.mpr fun context retained => ?_
  unfold merge
  rw [bind_of_ok (show Loading.definition id context = (.ok (context.definition id), context) from rfl)]
  dsimp only
  split
  · exact .inl retained
  · split
    · exact .inl (retained.replace fun within =>
        (marks _).trans (retained.definition id within))
    · refine Pairing.retaining_iff.mp (Saves.parallel_revise (fun base => .bind
        (.onPart (.each fun _ => parallel_resolve views resolves makes id _)
          fun _ draft => { Definition.Retains.refl draft with }) fun found => .bind
            (.lift (parallel_combine views _ _)) fun inherited => ?_) id) context retained
      cases inherited with
      | none => exact .modifyDraft marks
      | some inherited => exact .bind (.takeOver inherited) fun _ => .modifyDraft marks

end Loads

section Pipeline

variable {origin : Context} {frontEnd : FrontEnd} (predefined : frontEnd.registry = .predefined)
include predefined

theorem Stage.retaining_run {load : String → Loading DefinitionId}
    (loads : ∀ name, Parallel (.retaining origin) (load name) (load name)) (stage : Stage)
    (name : String) (id : DefinitionId) :
    Parallel (.retaining origin) (stage.run frontEnd load name id)
      (stage.run frontEnd load name id) := by
  have observes := Pairing.observes_retaining origin
  have views := observes.views
  have harmless : frontEnd.registry.IsHarmless :=
    predefined ▸ AnnotationRegistry.isHarmless_predefined
  have makes := observes.makes loads (predefined ▸ AnnotationRegistry.runsParallel_predefined views)
  have resolves := Resolver.pairs_full views loads makes
  have rewrites {step : Loading Unit}
      (rewrites : ∀ context : Context, Rewrites context id (context.definition id).Edits step) :
      Parallel (.retaining origin) step step :=
    Pairing.parallel_retaining fun context =>
      (rewrites context).retained fun _ edits => edits.retains
  have revises {step : Loading Unit}
      (alike : ∀ context : Context, Rewrites context id (context.definition id).EditsAlike step) :
      Parallel (.retaining origin) step step :=
    rewrites fun context => (alike context).mono fun _ alike => alike.edits
  cases stage with
  | annotations =>
      exact revises fun _ => AnnotationRegistry.rewrites_checkDefinition harmless
  | process phase =>
      exact rewrites fun _ => AnnotationRegistry.rewrites_processStored
        (AnnotationRegistry.agree_processDefinition harmless (.refl _))
  | typeParameters => exact TypeParameters.retaining_check resolves id
  | subComponents => exact SubComponents.retaining_resolveAll resolves id
  | parents => exact Parents.retaining_merge resolves makes id
  | subComponentAnnotations =>
      exact rewrites fun _ => AnnotationRegistry.rewrites_processStoredSubComponents fun _ =>
        AnnotationRegistry.agree_processSubComponents harmless _ (.refl _)
  | interfaces => exact parallel_checkInterfaces views id
  | delegation => exact revises fun context => rewrites_delegateInterfaces context id
  | membrane => exact revises fun context => rewrites_completeMembrane context id
  | expandBindings => exact revises fun context => rewrites_normalizeBindings context id
  | checkBindings => exact revises fun context => rewrites_checkBindings context id _
  | coverage => exact parallel_requireBound views name id
  | parameters => exact parallel_checkParameters views id
  | attributes => exact revises fun context => rewrites_settleAttributes context id

theorem FrontEnd.retaining_load (name : String) :
    Parallel (.retaining origin) (frontEnd.load name) (frontEnd.load name) :=
  parallel_load_of_stages (Pairing.observes_retaining origin).views
    (fun definition _ => (Pairing.observes_retaining origin).allocate definition)
    (fun _ _ arena log => Pairing.keeps_retaining (.of_arena arena)
      (fun context => congrArg _ (log context)) fun context => congrArg _ (log context))
    (fun _ loads => Stage.retaining_run predefined loads) name

end Pipeline

namespace FrontEnd

/-- A primitive declares an interface that it also inherits, with another signature. -/
def overriding (policy : ErrorPolicy) : Context :=
  .ofDefinitions { Options.default with errorPolicy := policy }
    [ { Definition.ofKind "a.P" .primitive with
        interfaces := [.ofRole .server "s" "i"]
        sources := [.ofPath "p.c"] },
      { Definition.ofKind "a.C" .primitive with
        parents := [.ofName "a.P"]
        interfaces := [.ofRole .server "s" "j"]
        attributes := [⟨"n", "int", some (.number 1), .generated, .none⟩]
        sources := [.ofPath "c.c"] } ]

end FrontEnd

end Adl
