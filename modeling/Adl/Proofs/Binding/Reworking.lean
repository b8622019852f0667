import Adl.Binding.Expansion
import Mathlib.Data.List.Forall2
import Mathlib.Data.List.Induction
import Mathlib.Data.List.Nodup
import Mathlib.Logic.Relation

namespace Adl

/-! What becomes of the bindings of a definition. Where they are normalized, of those that start
from one end the first is kept. -/

namespace Binding

variable {binding : Binding}

/-! ## First bindings -/

/-- The bindings that are the first ones from their ends. -/
def firsts (bindings : List Binding) : List Binding :=
  (bindings.zipIdx.filter fun (binding, position) =>
    !(bindings.take position).any (·.id == binding.id)).map (·.1)

/-- For each of the other bindings, the report that names the first one from its end. -/
def repeats (bindings : List Binding) : List Diagnostic :=
  bindings.zipIdx.filterMap fun (binding, position) =>
    ((bindings.take position).find? (·.id == binding.id)).map fun first =>
      binding.duplicateReport first.span

/-! Both are followed through a list from its front: what a further binding adds to them depends on
those before it only. -/

theorem take_concat {bindings : List Binding} {other : Binding} {position : Nat}
    (member : (other, position) ∈ bindings.zipIdx) (binding : Binding) :
    (bindings ++ [binding]).take position = bindings.take position :=
  List.take_append_of_le_length (Nat.le_of_lt (List.snd_lt_of_mem_zipIdx member))

theorem firsts_concat (bindings : List Binding) (binding : Binding) :
    firsts (bindings ++ [binding]) =
      firsts bindings ++ if bindings.any (·.id == binding.id) then [] else [binding] := by
  unfold firsts
  rw [List.zipIdx_append, List.filter_append, List.map_append]
  congr 1
  · refine congrArg _ (List.filter_congr fun (other, position) member => ?_)
    dsimp only
    rw [take_concat member]
  · by_cases known : bindings.any (·.id == binding.id) = true <;> simp [known]

theorem repeats_concat (bindings : List Binding) (binding : Binding) :
    repeats (bindings ++ [binding]) = repeats bindings ++
      ((bindings.find? (·.id == binding.id)).map fun first =>
        binding.duplicateReport first.span).toList := by
  unfold repeats
  rw [List.zipIdx_append, List.filterMap_append]
  congr 1
  · refine List.filterMap_congr fun (other, position) member => ?_
    dsimp only
    rw [take_concat member]
  · cases found : bindings.find? (·.id == binding.id) <;> simp [found]

theorem firsts_sublist (bindings : List Binding) : (firsts bindings).Sublist bindings := by
  have whole : (firsts bindings).Sublist (bindings.zipIdx.map Prod.fst) :=
    List.filter_sublist.map Prod.fst
  rwa [List.zipIdx_map_fst] at whole

/-- No end is left twice. -/
theorem nodup_firsts (bindings : List Binding) : ((firsts bindings).map (·.id)).Nodup := by
  induction bindings using List.reverseRecOn with
  | nil => exact .nil
  | append_singleton bindings last induction =>
      rw [firsts_concat]
      split
      · rwa [List.append_nil]
      · rename_i isNew
        refine List.map_append ▸ List.nodup_append.mpr ⟨induction, List.nodup_singleton _, ?_⟩
        rintro id known _ isLast rfl
        obtain ⟨other, member, same⟩ := List.mem_map.mp known
        refine isNew (List.any_eq_true.mpr ⟨other, (firsts_sublist bindings).mem member, ?_⟩)
        exact beq_iff_eq.mpr (same.trans (List.mem_singleton.mp isLast))

/-- The table has where the first binding from each end stands. -/
def FindsFirsts (table : Table Span) (seen : List Binding) : Prop :=
  ∀ id, table.find? id = (seen.find? (·.id == id)).map (·.span)

variable {table : Table Span} {seen : List Binding} {first : Binding}

theorem FindsFirsts.of_known (finds : FindsFirsts table seen)
    (found : seen.find? (·.id == binding.id) = some first) :
    FindsFirsts table (seen ++ [binding]) := by
  intro id
  rw [finds, List.find?_append]
  by_cases same : binding.id = id
  · rw [← same, found]
    rfl
  · rw [List.find?_singleton, if_neg (by simpa using same), Option.or_none]

theorem FindsFirsts.of_new (finds : FindsFirsts table seen)
    (isNew : seen.find? (·.id == binding.id) = none) :
    FindsFirsts (table.insert binding.id binding.span) (seen ++ [binding]) := by
  intro id
  rw [Table.find?_insert, finds, List.find?_append]
  by_cases same : binding.id = id
  · rw [← same, isNew]
    simp
  · rw [if_neg same, List.find?_singleton, if_neg (by simpa using same), Option.or_none]

/-! ## Reworking -/

/-- The binding with what annotations and the check have to say of it. -/
structure Settles (settled binding : Binding) : Prop where
  client : settled.client = binding.client
  server : settled.server = binding.server
  span : settled.span = binding.span
  annotations : settled.annotations.nodes = binding.annotations.nodes

theorem Settles.refl (binding : Binding) : binding.Settles binding :=
  ⟨rfl, rfl, rfl, rfl⟩

/-- What a stage does to the bindings of a definition: it settles each of them, puts the first
ones of those that they stand for in their place, or puts others before them. -/
inductive Rework : List Binding → List Binding → Prop
  | settled {bindings settled : List Binding} :
      List.Forall₂ (fun binding settled => settled.Settles binding) bindings settled →
      Rework bindings settled
  | normalized (definition : Definition) (context : Context) :
      Rework definition.bindings (firsts (definition.expandedBindings context))
  | inherited (handed bindings : List Binding) : Rework bindings (handed ++ bindings)

/-- Any number of stages. -/
def Reworks : List Binding → List Binding → Prop :=
  Relation.ReflTransGen Rework

/-- One binding is changed where it stands. -/
theorem rework_modify (bindings : List Binding) (index : Nat) {change : Binding → Binding}
    (settles : ∀ binding, (change binding).Settles binding) :
    Rework bindings (bindings.modify index change) := by
  refine .settled (List.forall₂_iff_get.mpr ⟨(List.length_modify ..).symm, ?_⟩)
  intro position _ _
  simp only [List.get_eq_getElem, List.getElem_modify]
  split
  · exact settles _
  · exact .refl _

end Binding

end Adl
