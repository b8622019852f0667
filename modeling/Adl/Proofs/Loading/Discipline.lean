import Adl.Loading.Step
import Mathlib.Data.List.Forall2

namespace Adl

/-! What steps keep. A discipline says which states can occur, how one may follow from
another, and with which failures a step may end. Steps are compared in pairs: from a valid
state both do the same and keep the discipline. A step paired with itself just keeps it. -/

structure Discipline (State : Type) where
  Valid : State → Prop
  Leads : State → State → Prop
  Fails : LoadError → Prop
  refl : ∀ state, Leads state state
  trans : ∀ {first second third}, Leads first second → Leads second third → Leads first third

variable {State Draft Part α β : Type}

namespace Discipline

/-- What is known at the end of a step that ran under a discipline. -/
def Ended (discipline : Discipline State) (post : α → State → Prop)
    (result : Except LoadError α) (state : State) : Prop :=
  match result with
  | .ok value => post value state
  | .error error => discipline.Fails error

/-- A property of a value beside the state that later states do not take away. -/
def Lasting (discipline : Discipline State) (Good : State → Draft → Prop) : Prop :=
  ∀ ⦃state later item⦄, discipline.Valid state → discipline.Valid later →
    discipline.Leads state later → Good state item → Good later item

theorem lasting_const (discipline : Discipline State) (Good : Draft → Prop) :
    discipline.Lasting fun _ => Good :=
  fun _ _ _ _ _ _ good => good

/-- The discipline of steps that work on a draft, where every draft is good. -/
def drafting (discipline : Discipline State) (Good : State → Draft → Prop) :
    Discipline (State × Draft) where
  Valid pair := discipline.Valid pair.1 ∧ Good pair.1 pair.2
  Leads first second := discipline.Leads first.1 second.1
  Fails := discipline.Fails
  refl pair := discipline.refl pair.1
  trans := discipline.trans

end Discipline

theorem Step.bind_apply (first : Step State α) (next : α → Step State β) (state : State) :
    (first >>= next) state =
      match first state with
      | (.ok value, reached) => next value reached
      | (.error error, reached) => (.error error, reached) := by
  change (ExceptT.bind first next) state = _
  simp only [ExceptT.bind, ExceptT.mk, ExceptT.bindCont, Bind.bind, StateT.bind]
  rcases first state with ⟨result, reached⟩
  cases result <;> rfl

theorem Step.bind_of_ok {first : Step State α} {next : α → Step State β} {state reached : State}
    {value : α} (ends : first state = (.ok value, reached)) :
    (first >>= next) state = next value reached := by
  rw [bind_apply, ends]

theorem Step.bind_of_error {first : Step State α} {next : α → Step State β}
    {state reached : State} {error : LoadError} (ends : first state = (.error error, reached)) :
    (first >>= next) state = (.error error, reached) := by
  rw [bind_apply, ends]

theorem Step.ok_of_bind {first : Step State α} {next : α → Step State β} {state reached : State}
    {result : β} (ends : (first >>= next) state = (.ok result, reached)) :
    ∃ value middle, first state = (.ok value, middle) ∧
      next value middle = (.ok result, reached) := by
  rw [bind_apply] at ends
  rcases outcome : first state with ⟨value | value, middle⟩
  · rw [outcome] at ends
    exact nomatch ends
  · rw [outcome] at ends
    exact ⟨value, middle, rfl, ends⟩

namespace Step

/-- Steps that each leave both alone do so one after the other. -/
theorem foldlM_of_stays {items : List β} {step : α → β → Step State α} {value : α} {state : State}
    (stays : ∀ item ∈ items, step value item state = (.ok value, state)) :
    items.foldlM step value state = (.ok value, state) := by
  induction items with
  | nil => rfl
  | cons item rest induction =>
      rw [List.foldlM_cons, bind_of_ok (stays item List.mem_cons_self)]
      exact induction fun other member => stays other (List.mem_cons_of_mem _ member)

/-- From `state` both steps do the same: the state they reach is valid and follows from
`state`, and a value that they give satisfies `post`. -/
structure Agree (discipline : Discipline State) (state : State) (left right : Step State α)
    (post : α → State → Prop) : Prop where
  same : left state = right state
  valid : discipline.Valid (left state).2
  leads : discipline.Leads state (left state).2
  ended : discipline.Ended post (left state).1 (left state).2

namespace Agree

variable {discipline : Discipline State} {state : State} {left right : Step State α}
  {post : α → State → Prop}

/-- Agreement is about what the steps do from the one state only. -/
theorem of_eq {left' right' : Step State α} (leftEqual : left state = left' state)
    (rightEqual : right state = right' state)
    (agree : Agree discipline state left' right' post) :
    Agree discipline state left right post :=
  ⟨by rw [leftEqual, rightEqual, agree.same], leftEqual ▸ agree.valid,
    leftEqual ▸ agree.leads, leftEqual ▸ agree.ended⟩

theorem ends {result : Except LoadError α} {reached : State} (leftEnds : left state = (result, reached))
    (rightEnds : right state = (result, reached)) (valid : discipline.Valid reached)
    (leads : discipline.Leads state reached) (ended : discipline.Ended post result reached) :
    Agree discipline state left right post where
  same := leftEnds.trans rightEnds.symm
  valid := leftEnds ▸ valid
  leads := leftEnds ▸ leads
  ended := leftEnds ▸ ended

theorem run {value : α} {reached : State} (ends : left state = (.ok value, reached))
    (valid : discipline.Valid reached) (leads : discipline.Leads state reached)
    (holds : post value reached) : Agree discipline state left left post where
  same := rfl
  valid := ends ▸ valid
  leads := ends ▸ leads
  ended := ends ▸ holds

theorem pure {value : α} (valid : discipline.Valid state) (holds : post value state) :
    Agree discipline state (Pure.pure value) (Pure.pure value) post :=
  ⟨rfl, valid, discipline.refl state, holds⟩

theorem fail {error : LoadError} (valid : discipline.Valid state)
    (fails : discipline.Fails error) :
    Agree discipline state (Step.fail error : Step State α) (Step.fail error) post :=
  ⟨rfl, valid, discipline.refl state, fails⟩

theorem mono {weaker : α → State → Prop}
    (agree : Agree discipline state left right post)
    (implies : ∀ value reached, discipline.Valid reached → discipline.Leads state reached →
      post value reached → weaker value reached) :
    Agree discipline state left right weaker where
  same := agree.same
  valid := agree.valid
  leads := agree.leads
  ended := by
    have ended := agree.ended
    revert ended
    generalize (left state).1 = result
    cases result with
    | ok value => exact implies value _ agree.valid agree.leads
    | error error => exact id

/-- Something may be known of a value from the step that gave it. -/
theorem ran (agree : Agree discipline state left right post) (stronger : α → State → Prop)
    (implies : ∀ value reached, left state = (.ok value, reached) → post value reached →
      stronger value reached) :
    Agree discipline state left right stronger where
  same := agree.same
  valid := agree.valid
  leads := agree.leads
  ended := by
    have ended := agree.ended
    rcases outcome : left state with ⟨result, reached⟩
    rw [outcome] at ended
    cases result with
    | ok value => exact implies value reached outcome ended
    | error error => exact ended

theorem and {other : α → State → Prop} (agree : Agree discipline state left right post)
    (also : Agree discipline state left right other) :
    Agree discipline state left right fun value reached => post value reached ∧ other value reached where
  same := agree.same
  valid := agree.valid
  leads := agree.leads
  ended := by
    have ended := agree.ended
    have alsoEnded := also.ended
    revert ended alsoEnded
    generalize (left state).1 = result
    cases result with
    | ok value => exact And.intro
    | error error => exact fun fails _ => fails

/-- What is known where a step succeeds. -/
theorem of_ok {value : α} {reached : State} (agree : Agree discipline state left right post)
    (ends : left state = (.ok value, reached)) :
    discipline.Valid reached ∧ discipline.Leads state reached ∧ post value reached := by
  have valid := agree.valid
  have leads := agree.leads
  have ended := agree.ended
  rw [ends] at valid leads ended
  exact ⟨valid, leads, ended⟩

/-- What agrees with anything agrees with itself. -/
theorem self (agree : Agree discipline state left right post) :
    Agree discipline state left left post :=
  { agree with same := rfl }

theorem forget (agree : Agree discipline state left right post) :
    Agree discipline state left right fun _ _ => True :=
  agree.mono fun _ _ _ _ _ => trivial

/-- What keeps a discipline keeps each discipline that asks for less. -/
theorem under {other : Discipline State} (agree : Agree discipline state left right post)
    (valid : ∀ reached, discipline.Valid reached → discipline.Leads state reached →
      other.Valid reached)
    (leads : ∀ reached, discipline.Valid reached → discipline.Leads state reached →
      other.Leads state reached)
    (fails : ∀ error, discipline.Fails error → other.Fails error) :
    Agree other state left right post where
  same := agree.same
  valid := valid _ agree.valid agree.leads
  leads := leads _ agree.valid agree.leads
  ended := by
    have ended := agree.ended
    revert ended
    generalize (left state).1 = result
    cases result with
    | ok value => exact id
    | error error => exact fails error

theorem bind {middle : β → State → Prop} {first firstTwin : Step State β}
    {next nextTwin : β → Step State α}
    (begins : Agree discipline state first firstTwin middle)
    (continues : ∀ value reached, discipline.Valid reached → discipline.Leads state reached →
      middle value reached → Agree discipline reached (next value) (nextTwin value) post) :
    Agree discipline state (first >>= next) (firstTwin >>= nextTwin) post := by
  have begun := begins.ended
  have valid := begins.valid
  have leads := begins.leads
  have same := begins.same
  rcases outcome : first state with ⟨result, reached⟩
  rw [outcome] at begun valid leads same
  cases result with
  | ok value =>
      have rest := continues value reached valid leads begun
      have left : (first >>= next) state = next value reached := bind_of_ok outcome
      have right : (firstTwin >>= nextTwin) state = nextTwin value reached :=
        bind_of_ok same.symm
      exact ⟨by rw [left, right, rest.same], left ▸ rest.valid,
        left ▸ discipline.trans leads rest.leads, left ▸ rest.ended⟩
  | error error =>
      have left : (first >>= next) state = (.error error, reached) := bind_of_error outcome
      have right : (firstTwin >>= nextTwin) state = (.error error, reached) :=
        bind_of_error same.symm
      exact ⟨by rw [left, right], left ▸ valid, left ▸ leads, left ▸ begun⟩

/-- Steps in sequence, with what is known in between. -/
theorem through (middle : β → State → Prop) {first firstTwin : Step State β}
    {next nextTwin : β → Step State α}
    (begins : Agree discipline state first firstTwin middle)
    (continues : ∀ value reached, discipline.Valid reached → discipline.Leads state reached →
      middle value reached → Agree discipline reached (next value) (nextTwin value) post) :
    Agree discipline state (first >>= next) (firstTwin >>= nextTwin) post :=
  bind begins continues

/-- A step that changes nothing can be taken at the start. -/
theorem read {first : Step State β} {value : β} {next nextTwin : β → Step State α}
    (reads : first state = (.ok value, state))
    (agree : Agree discipline state (next value) (nextTwin value) post) :
    Agree discipline state (first >>= next) (first >>= nextTwin) post :=
  agree.of_eq (bind_of_ok reads) (bind_of_ok reads)

/-- A step whose outcome is taken as a value does not fail. -/
theorem outcome (agree : Agree discipline state left right post) :
    Agree discipline state left.outcome right.outcome (discipline.Ended post) :=
  ⟨by simp only [Step.outcome, agree.same], agree.valid, agree.leads, agree.ended⟩

theorem forM {items : List β} {step twin : β → Step State PUnit} (Inv : State → Prop)
    (valid : discipline.Valid state) (start : Inv state)
    (each : ∀ item ∈ items, ∀ reached, discipline.Valid reached → Inv reached →
      Agree discipline reached (step item) (twin item) fun _ => Inv) :
    Agree discipline state (items.forM step) (items.forM twin) fun _ => Inv := by
  induction items generalizing state with
  | nil => exact pure valid start
  | cons item rest induction =>
      change Agree discipline state (step item >>= fun _ => rest.forM step)
        (twin item >>= fun _ => rest.forM twin) _
      refine bind (each item List.mem_cons_self state valid start) ?_
      intro _ reached valid _ holds
      exact induction valid holds fun item member => each item (List.mem_cons_of_mem _ member)

/-- What is done for one item after the other is done for all of them, where it lasts. -/
theorem forM_all (Done : β → State → Prop) {items : List β} {step twin : β → Step State PUnit}
    (done : ∀ item before after, discipline.Valid before → discipline.Valid after →
      discipline.Leads before after → Done item before → Done item after)
    (valid : discipline.Valid state)
    (each : ∀ item ∈ items, ∀ reached, discipline.Valid reached → discipline.Leads state reached →
      Agree discipline reached (step item) (twin item) fun _ => Done item) :
    Agree discipline state (items.forM step) (items.forM twin)
      fun _ reached => ∀ item ∈ items, Done item reached := by
  induction items generalizing state with
  | nil => exact pure valid fun _ member => nomatch member
  | cons item rest induction =>
      change Agree discipline state (step item >>= fun _ => rest.forM step)
        (twin item >>= fun _ => rest.forM twin) _
      refine bind (each item List.mem_cons_self state valid (discipline.refl state)) ?_
      intro _ reached validReached leads first
      refine (induction validReached fun other member later validLater leadsLater =>
        each other (List.mem_cons_of_mem _ member) later validLater
          (discipline.trans leads leadsLater)).mono ?_
      intro _ final validFinal leadsFinal others other member
      rcases List.mem_cons.mp member with rfl | member
      · exact done other reached final validReached validFinal leadsFinal first
      · exact others other member

theorem foldlM {items : List β} {step twin : α → β → Step State α} {first : α}
    (Inv : α → State → Prop) (valid : discipline.Valid state) (start : Inv first state)
    (each : ∀ item ∈ items, ∀ value reached, discipline.Valid reached → Inv value reached →
      Agree discipline reached (step value item) (twin value item) Inv) :
    Agree discipline state (items.foldlM step first) (items.foldlM twin first) Inv := by
  induction items generalizing state first with
  | nil => exact pure valid start
  | cons item rest induction =>
      rw [List.foldlM_cons, List.foldlM_cons]
      refine bind (each item List.mem_cons_self first state valid start) ?_
      intro value reached valid _ holds
      exact induction valid holds fun item member => each item (List.mem_cons_of_mem _ member)

/-- What is done for one item after the other is done for all of them, where it lasts while the
value moves on. -/
theorem foldlM_all (Moves : α → α → Prop) (Done : β → α → State → Prop) {items : List β}
    {step twin : α → β → Step State α} {first : α} (refl : ∀ value, Moves value value)
    (trans : ∀ {left middle right}, Moves left middle → Moves middle right → Moves left right)
    (done : ∀ item {value moved} {before after}, Moves value moved → discipline.Valid before →
      discipline.Valid after → discipline.Leads before after → Done item value before →
      Done item moved after)
    (valid : discipline.Valid state)
    (each : ∀ item ∈ items, ∀ value reached, discipline.Valid reached → Moves first value →
      discipline.Leads state reached → Agree discipline reached (step value item) (twin value item)
        fun moved after => Moves value moved ∧ Done item moved after) :
    Agree discipline state (items.foldlM step first) (items.foldlM twin first)
      fun last reached => Moves first last ∧ ∀ item ∈ items, Done item last reached := by
  induction items generalizing state first with
  | nil => exact pure valid ⟨refl first, fun _ member => nomatch member⟩
  | cons item rest induction =>
      rw [List.foldlM_cons, List.foldlM_cons]
      refine bind (each item List.mem_cons_self first state valid (refl first)
        (discipline.refl state)) ?_
      rintro value reached validReached leads ⟨moves, isDone⟩
      refine (induction validReached fun other member moved later validLater further leadsLater =>
        each other (List.mem_cons_of_mem _ member) moved later validLater (trans moves further)
          (discipline.trans leads leadsLater)).mono ?_
      rintro last final validFinal leadsFinal ⟨further, others⟩
      exact ⟨trans moves further, List.forall_mem_cons.mpr
        ⟨done item further validReached validFinal leadsFinal isDone, others⟩⟩

end Agree

end Step

/-! ## Drafts -/

namespace Drafting

open Step

variable {discipline : Discipline State} {Good : State → Draft → Prop} {state : State}
  {draft : Draft}

theorem agree_modifyDraft {change : Draft → Draft} {post : Unit → State × Draft → Prop}
    (valid : discipline.Valid state) (good : Good state (change draft))
    (holds : post () (state, change draft)) :
    Agree (discipline.drafting Good) (state, draft) (Drafting.modifyDraft change)
      (Drafting.modifyDraft change) post :=
  ⟨rfl, ⟨valid, good⟩, discipline.refl state, holds⟩

/-- Drafts may be asked for less than a step keeps of them. -/
theorem agree_under {other : Discipline State} {Weaker : State → Draft → Prop}
    {left right : Drafting State Draft α} {post : α → State × Draft → Prop}
    (agree : Agree (discipline.drafting Good) (state, draft) left right post)
    (valid : ∀ reached, discipline.Valid reached → discipline.Leads state reached →
      other.Valid reached)
    (leads : ∀ reached, discipline.Valid reached → discipline.Leads state reached →
      other.Leads state reached)
    (fails : ∀ error, discipline.Fails error → other.Fails error)
    (good : ∀ reached item, discipline.Valid reached → discipline.Leads state reached →
      Good reached item → Weaker reached item) :
    Agree (other.drafting Weaker) (state, draft) left right post :=
  agree.under
    (fun reached holds leadsTo => ⟨valid reached.1 holds.1 leadsTo,
      good reached.1 reached.2 holds.1 leadsTo holds.2⟩)
    (fun reached holds leadsTo => leads reached.1 holds.1 leadsTo) fails

theorem lift_apply (step : Step State α) (state : State) (draft : Draft) :
    (liftM step : Drafting State Draft α) (state, draft) =
      ((step state).1, ((step state).2, draft)) :=
  rfl

theorem ok_of_lift {step : Step State α} {reached : State} {changed : Draft} {value : α}
    (ends : (liftM step : Drafting State Draft α) (state, draft) = (.ok value, (reached, changed))) :
    draft = changed ∧ step state = (.ok value, reached) := by
  rw [lift_apply] at ends
  rcases outcome : step state with ⟨result, last⟩
  rw [outcome] at ends
  cases ends
  exact ⟨rfl, rfl⟩

theorem ok_of_onPart {get : Draft → Part} {set : Part → Draft → Draft}
    {step : Drafting State Part α} {reached : State} {changed : Draft} {value : α}
    (ends : Drafting.onPart get set step (state, draft) = (.ok value, (reached, changed))) :
    ∃ part, step (state, get draft) = (.ok value, (reached, part)) ∧
      changed = set part draft := by
  change ((step (state, get draft)).1, ((step (state, get draft)).2.1, _)) = _ at ends
  rcases outcome : step (state, get draft) with ⟨result, last, part⟩
  rw [outcome] at ends
  cases ends
  exact ⟨part, rfl, rfl⟩

/-- A step of the state leaves the draft as it is. -/
theorem agree_lift {left right : Step State α} {post : α → State → Prop}
    (lasting : discipline.Lasting Good) (valid : discipline.Valid state)
    (good : Good state draft) (agree : Agree discipline state left right post) :
    Agree (discipline.drafting Good) (state, draft) (liftM left : Drafting State Draft α)
      (liftM right : Drafting State Draft α)
      fun value pair => pair.2 = draft ∧ post value pair.1 := by
  refine ⟨?_, ?_, ?_, ?_⟩
  · rw [lift_apply, agree.same]
    rfl
  · exact ⟨agree.valid, lasting valid agree.valid agree.leads good⟩
  · exact agree.leads
  · have ended := agree.ended
    rw [lift_apply]
    revert ended
    generalize (left state).1 = result
    cases result with
    | ok value => exact fun holds => ⟨rfl, holds⟩
    | error error => exact id

theorem agree_lift_bind {middle : α → State → Prop} {first firstTwin : Step State α}
    {next nextTwin : α → Drafting State Draft β} {post : β → State × Draft → Prop}
    (lasting : discipline.Lasting Good) (valid : discipline.Valid state)
    (good : Good state draft) (begins : Agree discipline state first firstTwin middle)
    (continues : ∀ value reached, discipline.Valid reached → discipline.Leads state reached →
      Good reached draft → middle value reached →
      Agree (discipline.drafting Good) (reached, draft) (next value) (nextTwin value) post) :
    Agree (discipline.drafting Good) (state, draft)
      ((liftM first : Drafting State Draft α) >>= next)
      ((liftM firstTwin : Drafting State Draft α) >>= nextTwin) post := by
  refine Agree.bind (agree_lift lasting valid good begins) ?_
  rintro value ⟨reached, item⟩ validAfter leads ⟨rfl, holds⟩
  exact continues value reached validAfter.1 leads validAfter.2 holds

theorem agree_onPart {get : Draft → Part} {set : Part → Draft → Draft}
    {GoodPart : State → Part → Prop} {left right : Drafting State Part α}
    {post : α → State × Part → Prop}
    (agree : Agree (discipline.drafting GoodPart) (state, get draft) left right post)
    (puts : ∀ reached part, discipline.Valid reached → discipline.Leads state reached →
      GoodPart reached part → Good reached (set part draft)) :
    Agree (discipline.drafting Good) (state, draft) (Drafting.onPart get set left)
      (Drafting.onPart get set right)
      fun value pair => ∃ part, pair.2 = set part draft ∧ GoodPart pair.1 part ∧
        post value (pair.1, part) := by
  have same := agree.same
  have valid := agree.valid
  have leads := agree.leads
  have ended := agree.ended
  rcases outcome : left (state, get draft) with ⟨result, reached, part⟩
  rw [outcome] at same valid leads ended
  have left_apply : Drafting.onPart get set left (state, draft) =
      (result, (reached, set part draft)) := by
    simp only [Drafting.onPart, outcome]
  have right_apply : Drafting.onPart get set right (state, draft) =
      (result, (reached, set part draft)) := by
    simp only [Drafting.onPart, ← same]
  refine ⟨left_apply.trans right_apply.symm, ?_, ?_, ?_⟩
  · rw [left_apply]
    exact ⟨valid.1, puts reached part valid.1 leads valid.2⟩
  · rw [left_apply]
    exact leads
  · rw [left_apply]
    cases result with
    | ok value => exact ⟨part, rfl, valid.2, ended⟩
    | error error => exact ended

/-- What is known of the items of a list once they were visited: of what each was, what was
given for it and what it is. -/
inductive Visited (Done : Draft → α → Draft → Prop) : List Draft → List α → List Draft → Prop
  | nil : Visited Done [] [] []
  | cons {original item : Draft} {value : α} {originals items : List Draft} {values : List α} :
      Done original value item → Visited Done originals values items →
      Visited Done (original :: originals) (value :: values) (item :: items)

namespace Visited

variable {originals changed : List Draft}
  {given : List α}

theorem values {Given : α → Draft → Prop}
    (visited : Visited (fun _ value item => Given value item) originals given changed) :
    List.Forall₂ Given given changed := by
  induction visited with
  | nil => exact .nil
  | cons done _ induction => exact .cons done induction

theorem items {Became : Draft → Draft → Prop}
    (visited : Visited (fun original _ item => Became original item) originals given changed) :
    List.Forall₂ Became originals changed := by
  induction visited with
  | nil => exact .nil
  | cons done _ induction => exact .cons done induction

end Visited

theorem agree_eachFrom {visit twin : Nat → Drafting State Draft α}
    {Good : Draft → State → Draft → Prop} {Done : Draft → α → State → Draft → Prop}
    (lasting : ∀ original, discipline.Lasting (Good original))
    (done : ∀ original value, discipline.Lasting (Done original value))
    (each : ∀ index reached item, discipline.Valid reached → discipline.Leads state reached →
      Good item reached item → Agree (discipline.drafting (Good item)) (reached, item)
        (visit index) (twin index) fun value pair => Done item value pair.1 pair.2)
    (index : Nat) (items : List Draft) (valid : discipline.Valid state)
    (good : ∀ item ∈ items, Good item state item) :
    Agree (discipline.drafting fun state changed =>
        List.Forall₂ (fun item changed => Good item state changed) items changed)
      (state, items) (fun pair => eachFrom visit index pair.2 pair.1)
      (fun pair => eachFrom twin index pair.2 pair.1)
      fun values pair =>
        Visited (fun item value changed => Done item value pair.1 changed) items values pair.2 := by
  have unchanged : ∀ (items : List Draft) (reached : State),
      (∀ item ∈ items, Good item reached item) →
      List.Forall₂ (fun item changed => Good item reached changed) items items :=
    fun items _ good => List.forall₂_same.mpr good
  induction items generalizing state index with
  | nil => exact ⟨rfl, ⟨valid, .nil⟩, discipline.refl state, .nil⟩
  | cons item rest induction =>
      have visited := each index state item valid (discipline.refl state)
        (good item List.mem_cons_self)
      have same := visited.same
      have validAfter := visited.valid
      have leads := visited.leads
      have ended := visited.ended
      rcases outcome : visit index (state, item) with ⟨result, reached, changed⟩
      rw [outcome] at same validAfter leads ended
      have restGood : ∀ item ∈ rest, Good item reached item := fun item member =>
        lasting item valid validAfter.1 leads (good item (List.mem_cons_of_mem _ member))
      cases result with
      | error error =>
          have left : eachFrom visit index (item :: rest) state =
              (.error error, (reached, changed :: rest)) := by
            simp only [eachFrom, outcome]
          have right : eachFrom twin index (item :: rest) state =
              (.error error, (reached, changed :: rest)) := by
            simp only [eachFrom, ← same]
          refine ⟨left.trans right.symm, ?_, ?_, ?_⟩
          · simp only [left]
            exact ⟨validAfter.1, .cons validAfter.2 (unchanged rest reached restGood)⟩
          · simp only [left]
            exact leads
          · simp only [left]
            exact ended
      | ok value =>
          have others := induction
            (fun index later item valid leadsLater =>
              each index later item valid (discipline.trans leads leadsLater))
            (index + 1) validAfter.1 restGood
          have othersSame := others.same
          have othersValid := others.valid
          have othersLeads := others.leads
          have othersEnded := others.ended
          rcases tail : eachFrom visit (index + 1) rest reached with ⟨tailResult, final, left⟩
          simp only [tail] at othersSame othersValid othersLeads othersEnded
          have changedGood := lasting item validAfter.1 othersValid.1 othersLeads validAfter.2
          cases tailResult with
          | error error =>
              have leftEqual : eachFrom visit index (item :: rest) state =
                  (.error error, (final, changed :: left)) := by
                simp only [eachFrom, outcome, tail]
              have rightEqual : eachFrom twin index (item :: rest) state =
                  (.error error, (final, changed :: left)) := by
                simp only [eachFrom, ← same, ← othersSame]
              refine ⟨leftEqual.trans rightEqual.symm, ?_, ?_, ?_⟩
              · simp only [leftEqual]
                exact ⟨othersValid.1, .cons changedGood othersValid.2⟩
              · simp only [leftEqual]
                exact discipline.trans leads othersLeads
              · simp only [leftEqual]
                exact othersEnded
          | ok values =>
              have leftEqual : eachFrom visit index (item :: rest) state =
                  (.ok (value :: values), (final, changed :: left)) := by
                simp only [eachFrom, outcome, tail]
              have rightEqual : eachFrom twin index (item :: rest) state =
                  (.ok (value :: values), (final, changed :: left)) := by
                simp only [eachFrom, ← same, ← othersSame]
              refine ⟨leftEqual.trans rightEqual.symm, ?_, ?_, ?_⟩
              · simp only [leftEqual]
                exact ⟨othersValid.1, .cons changedGood othersValid.2⟩
              · simp only [leftEqual]
                exact discipline.trans leads othersLeads
              · simp only [leftEqual]
                exact .cons (done item value validAfter.1 othersValid.1 othersLeads ended)
                  othersEnded

/-- Visiting the items of a list, where what is done to one item lasts. -/
theorem agree_each {visit twin : Nat → Drafting State Draft α} {items : List Draft}
    {Good : Draft → State → Draft → Prop} {Done : Draft → α → State → Draft → Prop}
    (lasting : ∀ original, discipline.Lasting (Good original))
    (done : ∀ original value, discipline.Lasting (Done original value))
    (valid : discipline.Valid state) (good : ∀ item ∈ items, Good item state item)
    (each : ∀ index reached item, discipline.Valid reached → discipline.Leads state reached →
      Good item reached item → Agree (discipline.drafting (Good item)) (reached, item)
        (visit index) (twin index) fun value pair => Done item value pair.1 pair.2) :
    Agree (discipline.drafting fun state changed =>
        List.Forall₂ (fun item changed => Good item state changed) items changed)
      (state, items) (Drafting.each visit) (Drafting.each twin)
      fun values pair =>
        Visited (fun item value changed => Done item value pair.1 changed) items values pair.2 :=
  agree_eachFrom lasting done each 0 items valid good

end Drafting

theorem exists_left_of_forall₂ {Related : α → β → Prop} {lefts : List α} {rights : List β}
    (related : List.Forall₂ Related lefts rights) :
    ∀ right ∈ rights, ∃ left ∈ lefts, Related left right := by
  induction related with
  | nil => exact fun _ member => nomatch member
  | @cons left right lefts rights first _ induction =>
      intro other member
      rcases List.mem_cons.mp member with rfl | member
      · exact ⟨left, List.mem_cons_self, first⟩
      · obtain ⟨found, among, holds⟩ := induction other member
        exact ⟨found, List.mem_cons_of_mem _ among, holds⟩

theorem forall₂_through {γ : Type} {First : α → β → Prop} {Second : β → γ → Prop}
    {Whole : α → γ → Prop} {lefts : List α} {middles : List β} {rights : List γ}
    (first : List.Forall₂ First lefts middles) (second : List.Forall₂ Second middles rights)
    (whole : ∀ left middle right, First left middle → Second middle right → Whole left right) :
    List.Forall₂ Whole lefts rights := by
  induction first generalizing rights with
  | nil =>
      cases second
      exact .nil
  | cons holds _ induction =>
      cases second with
      | cons other others => exact .cons (whole _ _ _ holds other) (induction others)

theorem exists_right_of_forall₂ {Related : α → β → Prop} {lefts : List α} {rights : List β}
    (related : List.Forall₂ Related lefts rights) :
    ∀ left ∈ lefts, ∃ right ∈ rights, Related left right :=
  exists_left_of_forall₂ related.flip

end Adl
