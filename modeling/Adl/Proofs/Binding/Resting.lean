import Adl.Proofs.Binding.Wiring
import Adl.Proofs.Loading.Running

namespace Adl

open Step Context

/-! Bindings that come to their stages as these leave them: expanded, accepted, complete. No stage
changes them again. -/

variable {context reached : Context} {id : DefinitionId} {definition changed : Definition}

theorem Binding.keepFirst_of_nodup {firsts : Table Span} {bindings : List Binding}
    (fresh : ∀ binding ∈ bindings, firsts.find? binding.id = none)
    (distinct : (bindings.map (·.id)).Nodup) :
    keepFirst firsts bindings context = (.ok bindings, context) := by
  induction bindings generalizing firsts with
  | nil => rfl
  | cons binding rest induction =>
      obtain ⟨isNew, distinct⟩ := List.nodup_cons.mp distinct
      unfold keepFirst
      rw [fresh binding List.mem_cons_self]
      refine (bind_of_ok (induction (fun other member => ?_) distinct)).trans rfl
      rw [Table.find?_insert, if_neg, fresh other (List.mem_cons_of_mem _ member)]
      intro same
      exact isNew (List.mem_map.mpr ⟨other, member, same.symm⟩)

/-- Bindings that stand for themselves only are kept. -/
theorem normalizeBindings_of_expanded
    (expanded : ∀ binding ∈ definition.bindings, definition.expansion? context binding = none)
    (distinct : (definition.bindings.map (·.id)).Nodup) :
    normalizeBindings (context, definition) = (.ok (), (context, definition)) := by
  have same : definition.expandedBindings context = definition.bindings := by
    unfold Definition.expandedBindings
    refine (List.flatMap_congr fun binding member => ?_).trans (List.flatMap_singleton' _)
    rw [Definition.expandBinding, expanded binding member]
  have kept : Binding.keepFirst .empty (definition.expandedBindings context) context =
      (.ok definition.bindings, context) := by
    rw [same]
    exact Binding.keepFirst_of_nodup (fun _ _ => rfl) distinct
  exact read_bind rfl (read_bind rfl (bind_of_ok (Drafting.lift_of_ok kept)))

/-- Bindings that were accepted as they are note nothing new. -/
theorem checkBindings_of_checked {extends? : String → String → Bool}
    (checked : ∀ binding ∈ definition.bindings,
      binding.check definition context extends? = .ok binding.castRequired) :
    checkBindings extends? (context, definition) = (.ok (), (context, definition)) := by
  refine read_bind rfl (read_bind rfl (bind_of_ok (Drafting.onPart_of_ok
    ((Drafting.each_of_changes (fun _ => ()) fun _ binding member => ?_).trans
      (by rw [List.map_id])))))
  refine read_bind rfl ?_
  rw [checked binding member]
  rfl

/-- A revision of no bindings is not needed. -/
theorem onBindings_of_ok {revision : Revising Definition Unit}
    (ends : revision (context, context.definition id) = (.ok (), (reached, changed)))
    (idle : (context.definition id).bindings = [] →
      reached = context ∧ changed = context.definition id) :
    (do if !(← Loading.definition id).bindings.isEmpty then Loading.revise id revision :
      Loading Unit) context = (.ok (), reached.replace id changed) := by
  refine read_bind rfl ?_
  split
  · exact Loading.revise_of_ok ends
  · rename_i absent
    obtain ⟨rfl, rfl⟩ := idle (by simpa using absent)
    rw [replace_definition]
    rfl

theorem onBindings_of_stays {revision : Revising Definition Unit}
    (stays : revision (context, context.definition id) =
      (.ok (), (context, context.definition id))) :
    (do if !(← Loading.definition id).bindings.isEmpty then Loading.revise id revision :
      Loading Unit) context = (.ok (), context) := by
  rw [onBindings_of_ok stays fun _ => ⟨rfl, rfl⟩, replace_definition]

/-- Other bindings can be stored where there are some, and interfaces stay the same. -/
theorem definition_withBindings (context : Context) (id : DefinitionId) {bindings : List Binding}
    (none : (context.definition id).bindings = [] → bindings = []) :
    (context.replace id { context.definition id with bindings }).definition id =
        { context.definition id with bindings } ∧
      (context.replace id { context.definition id with bindings }).SharesInterfaces context := by
  have same : (context.replace id { context.definition id with bindings }).definition id =
      { context.definition id with bindings } := by
    by_cases within : id < context.arena.size
    · exact definition_replace context _ within
    · have absent : context.definition id = default := default_of_size_le (Nat.le_of_not_lt within)
      obtain rfl := none (by rw [absent]; rfl)
      rw [absent]
      refine default_of_size_le ?_
      simpa [Context.replace] using within
  refine ⟨same, fun other => ?_⟩
  by_cases own : id = other
  · rw [← own, same]
  · rw [definition_replace_of_ne context _ own]

theorem requireBound_of_covered (name : String)
    (covered : (context.definition id).isComposite = true →
      (context.definition id).isAbstract = false → (context.definition id).unbound context = []) :
    requireBound name id context = (.ok (), context) := by
  refine read_bind rfl ?_
  split
  · rename_i concrete
    obtain ⟨composite, concrete⟩ := Bool.and_eq_true_iff.mp concrete
    refine read_bind rfl ?_
    rw [covered composite (by simpa using concrete)]
    rfl
  · rfl

end Adl
