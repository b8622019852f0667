import Adl.Proofs.Loading.Editing

namespace Adl

/-! Steps that are known to run through, put together. -/

variable {State Draft Part α β : Type}

namespace Step

/-- A step that only reads is followed by one with what it read. -/
theorem read_bind {first : Step State α} {next : α → Step State β} {state : State} {value : α}
    {result : Except LoadError β × State} (reads : first state = (.ok value, state))
    (ends : next value state = result) : (first >>= next) state = result :=
  (bind_of_ok reads).trans ends

theorem forM_of_stays {items : List β} {step : β → Step State PUnit} {state : State}
    (stays : ∀ item ∈ items, step item state = (.ok ⟨⟩, state)) :
    items.forM step state = (.ok ⟨⟩, state) := by
  induction items with
  | nil => rfl
  | cons item rest induction =>
      rw [List.forM_eq_forM, List.forM_cons, bind_of_ok (stays item List.mem_cons_self)]
      exact induction fun other member => stays other (List.mem_cons_of_mem _ member)

end Step

namespace Drafting

variable {state reached : State} {draft : Draft}

theorem lift_of_ok {step : Step State α} {value : α} (ends : step state = (.ok value, reached)) :
    (liftM step : Drafting State Draft α) (state, draft) = (.ok value, (reached, draft)) := by
  rw [lift_apply, ends]

theorem onPart_of_ok {get : Draft → Part} {set : Part → Draft → Draft}
    {step : Drafting State Part α} {value : α} {part : Part}
    (ends : step (state, get draft) = (.ok value, (reached, part))) :
    Drafting.onPart get set step (state, draft) = (.ok value, (reached, set part draft)) := by
  simp only [Drafting.onPart, ends]

/-- Items that are changed one by one, with the state as it is. -/
theorem each_of_changes {visit : Nat → Drafting State Draft α} {items : List Draft}
    (value : Draft → α) {change : Draft → Draft}
    (changes : ∀ index, ∀ item ∈ items,
      visit index (state, item) = (.ok (value item), (state, change item))) :
    Drafting.each visit (state, items) = (.ok (items.map value), (state, items.map change)) := by
  have visited : ∀ index, eachFrom visit index items state =
      (.ok (items.map value), (state, items.map change)) := by
    induction items with
    | nil => exact fun _ => rfl
    | cons item rest induction =>
        intro index
        have others := induction (fun index other member =>
          changes index other (List.mem_cons_of_mem _ member)) (index + 1)
        simp only [eachFrom, changes index item List.mem_cons_self, others, List.map_cons]
  exact visited 0

/-- All items are visited with success if the whole is, and here in the same state. -/
theorem ok_of_each {visit : Nat → Drafting State Draft α} {items changed : List Draft}
    {outcome : Draft → Except LoadError α} {change : Draft → Draft} {values : List α}
    (stays : ∀ index, ∀ item ∈ items,
      visit index (state, item) = (outcome item, (state, change item)))
    (ends : Drafting.each visit (state, items) = (.ok values, (reached, changed))) :
    ∀ item ∈ items, ∃ value, outcome item = .ok value := by
  have visited : ∀ index values changed,
      eachFrom visit index items state = (.ok values, (reached, changed)) →
        ∀ item ∈ items, ∃ value, outcome item = .ok value := by
    clear ends
    induction items with
    | nil => exact fun _ _ _ _ item member => absurd member List.not_mem_nil
    | cons item rest induction =>
        intro index values changed ends
        have here := stays index item List.mem_cons_self
        cases made : outcome item with
        | error error =>
            rw [made] at here
            simp only [eachFrom, here] at ends
            cases ends
        | ok value =>
            rw [made] at here
            simp only [eachFrom, here] at ends
            rcases others : eachFrom visit (index + 1) rest state with ⟨error | tail, last, left⟩
            · rw [others] at ends
              cases ends
            · rw [others] at ends
              cases ends
              exact List.forall_mem_cons.mpr ⟨⟨value, made⟩, induction (fun index other member =>
                stays index other (List.mem_cons_of_mem _ member)) _ _ _ others⟩
  exact visited 0 _ _ ends

end Drafting

namespace Loading

open Context

variable {context reached : Context} {id : DefinitionId}

theorem revise_of_ok {revision : Revising Definition Unit} {changed : Definition}
    (ends : revision (context, context.definition id) = (.ok (), (reached, changed))) :
    Loading.revise id revision context = (.ok (), reached.replace id changed) := by
  simp only [Loading.revise, ends]

/-- A revision that leaves all as it is. -/
theorem revise_of_stays {revision : Revising Definition Unit}
    (stays : revision (context, context.definition id) =
      (.ok (), (context, context.definition id))) :
    Loading.revise id revision context = (.ok (), context) := by
  rw [revise_of_ok stays, replace_definition]

theorem replace_of_same {definition : Definition} (same : definition = context.definition id) :
    Loading.replace id definition context = (.ok (), context) := by
  rw [same]
  exact congrArg (Prod.mk _) (replace_definition context id)

end Loading

end Adl
