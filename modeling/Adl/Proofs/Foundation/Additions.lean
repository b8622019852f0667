import Adl.Definition.Merge
import Mathlib.Data.List.Induction

namespace Adl

/-! Lists of items that are told apart by a key, and two ways to put such lists together. The unions
of annotations and of shared implementations add behind what is there what is new to it; what is
inherited comes before what replaces it. Either way, nothing comes that came before. -/

/-! ## Look-ups -/

theorem find?_of_nodup {α : Type} {key : α → String} {items : List α} {item : α}
    (distinct : (items.map key).Nodup) (member : item ∈ items) :
    items.find? (fun other => key other == key item) = some item := by
  induction items with
  | nil => exact nomatch member
  | cons first rest induction =>
      obtain ⟨isNew, distinct⟩ := List.nodup_cons.mp distinct
      rcases List.mem_cons.mp member with rfl | among
      · exact List.find?_cons_of_pos (beq_self_eq_true _)
      · have different : key first ≠ key item := by
          intro same
          exact isNew (same ▸ List.mem_map_of_mem among)
        rw [List.find?_cons_of_neg (by simpa using different)]
        exact induction distinct among

/-- An item is found by its key, if only as another item of that key. -/
theorem isNone_find?_of_mem {α : Type} (key : α → String) {items : List α} {item : α}
    (member : item ∈ items) : (items.find? (key · == key item)).isNone = false :=
  Option.isNone_eq_false_iff.mpr
    (List.find?_isSome.mpr ⟨item, member, beq_self_eq_true (key item)⟩)

/-! ## Adding what is new -/

/-- The items of `added` behind those of `taken`, each unless its key is there already. -/
def addNew {α : Type} (key : α → String) (taken added : List α) : List α :=
  added.foldl (fun items item =>
    if items.any (key · == key item) then items else items ++ [item]) taken

theorem Annotations.union_eq (left right : Annotations) :
    left.union right =
      ⟨addNew AnnotationNode.typeName left.nodes right.nodes,
        addNew Annotation.kind left.typed right.typed⟩ :=
  rfl

theorem appendNew_eq (left right : List String) : appendNew left right = addNew id left right := by
  unfold appendNew addNew
  refine congrArg (right.foldl · left) (funext fun items => funext fun item => ?_)
  rw [List.contains_eq_any_beq]
  simp only [id, Bool.beq_comm]

namespace addNew

variable {α : Type} {key : α → String} {taken added : List α} {item : α}

theorem append (key : α → String) (taken first rest : List α) :
    addNew key taken (first ++ rest) = addNew key (addNew key taken first) rest :=
  List.foldl_append

theorem singleton (key : α → String) (taken : List α) (item : α) :
    addNew key taken [item] = if key item ∈ taken.map key then taken else taken ++ [item] := by
  simp [addNew]

/-- What is there stays where it is. -/
theorem isPrefix (key : α → String) (taken added : List α) : taken <+: addNew key taken added := by
  induction added using List.reverseRecOn with
  | nil => exact List.prefix_rfl
  | append_singleton added last induction =>
      rw [append, singleton]
      split
      · exact induction
      · exact induction.trans (List.prefix_append _ _)

/-- Items are added only from the second list. -/
theorem mem (key : α → String) (member : item ∈ addNew key taken added) :
    item ∈ taken ∨ item ∈ added := by
  induction added using List.reverseRecOn with
  | nil => exact .inl member
  | append_singleton added last induction =>
      rw [append, singleton] at member
      split at member
      · exact (induction member).imp_right (List.mem_append_left _)
      · rcases List.mem_append.mp member with old | new
        · exact (induction old).imp_right (List.mem_append_left _)
        · exact .inr (List.mem_append_right _ new)

/-- No key is lost, and none comes from elsewhere. -/
theorem mem_keys {name : String} :
    name ∈ (addNew key taken added).map key ↔ name ∈ taken.map key ∨ name ∈ added.map key := by
  induction added using List.reverseRecOn with
  | nil => simp [addNew]
  | append_singleton added last induction =>
      rw [append, singleton, List.map_append, List.mem_append, ← or_assoc, ← induction]
      split
      · rename_i known
        refine ⟨.inl, fun either => either.elim id fun isLast => ?_⟩
        rwa [List.mem_singleton.mp isLast]
      · rw [List.map_append, List.mem_append]

theorem exists_of_mem (key : α → String) (member : item ∈ taken ∨ item ∈ added) :
    ∃ other ∈ addNew key taken added, key other = key item :=
  List.mem_map.mp (mem_keys.mpr (member.imp List.mem_map_of_mem List.mem_map_of_mem))

/-- Known keys bring nothing. -/
theorem of_known (known : ∀ item ∈ added, key item ∈ taken.map key) :
    addNew key taken added = taken := by
  induction added using List.reverseRecOn with
  | nil => rfl
  | append_singleton added last induction =>
      rw [append, induction fun item member => known item (List.mem_append_left _ member),
        singleton, if_pos (known last (by simp))]

/-- What was added once is not added again. -/
theorem again (key : α → String) (taken added : List α) :
    addNew key (addNew key taken added) added = addNew key taken added :=
  of_known fun _ member => mem_keys.mpr (.inr (List.mem_map_of_mem member))

/-- What the second list lacks of the third, the first may have; what it has, the first takes
from it. -/
theorem assoc (key : α → String) (first second third : List α) :
    addNew key (addNew key first second) third = addNew key first (addNew key second third) := by
  induction third using List.reverseRecOn with
  | nil => rfl
  | append_singleton third last induction =>
      rw [append, induction, append, singleton key (addNew key second third)]
      split
      · rename_i known
        rw [singleton, if_pos (mem_keys.mpr (.inr known))]
      · rw [append]

end addNew

/-! ## Taking over -/

/-- The inherited items that none of the own ones replaces, and then the own ones. -/
def takenOver {α : Type} (replaces : α → α → Bool) (own inherited : List α) : List α :=
  (inherited.filter fun item => !own.any (replaces · item)) ++ own

/-- What is taken over comes first, in its order, and then what the child has itself: the items
that are not replaced are taken over and no others. -/
def PutsFirst {α : Type} (replaces : α → α → Prop) (inherited own merged : List α) : Prop :=
  ∃ taken, merged = taken ++ own ∧ taken.Sublist inherited ∧
    ∀ item ∈ inherited, item ∈ taken ↔ ∀ mine ∈ own, ¬replaces mine item

namespace takenOver

variable {α : Type} {replaces : α → α → Bool} {own inherited : List α}

theorem putsFirst (replaces : α → α → Bool) (own inherited : List α) :
    PutsFirst (replaces · · = true) inherited own (takenOver replaces own inherited) := by
  refine ⟨_, rfl, List.filter_sublist, fun item member => ?_⟩
  simp [member]

/-- Items that replace themselves are not taken over again. -/
theorem again (replaces : α → α → Bool) (self : ∀ item, replaces item item = true)
    (own inherited : List α) :
    takenOver replaces (takenOver replaces own inherited) inherited =
      takenOver replaces own inherited := by
  have replaced : ∀ item ∈ inherited, (takenOver replaces own inherited).any (replaces · item) := by
    intro item member
    rw [takenOver, List.any_append]
    cases known : own.any (replaces · item) with
    | true => exact Bool.or_true _
    | false =>
        have taken : item ∈ inherited.filter fun item => !own.any (replaces · item) :=
          List.mem_filter.mpr ⟨member, by simpa using known⟩
        rw [Bool.or_false]
        exact List.any_eq_true.mpr ⟨item, taken, self item⟩
  have nothing : inherited.filter (fun item =>
      !(takenOver replaces own inherited).any (replaces · item)) = [] :=
    List.filter_eq_nil_iff.mpr fun item member => by simp [replaced item member]
  rw [takenOver, nothing, List.nil_append]

/-- In particular where items of one key replace each other. -/
theorem again_keyed {κ : Type} [BEq κ] [ReflBEq κ] (key : α → κ) (own inherited : List α) :
    takenOver (fun mine item => key mine == key item)
      (takenOver (fun mine item => key mine == key item) own inherited) inherited =
    takenOver (fun mine item => key mine == key item) own inherited :=
  again (fun mine item => key mine == key item) (fun _ => beq_self_eq_true _) own inherited

/-- Where items are replaced by name, the own item of a name is found before an inherited one. -/
theorem find? (key : α → String) (own inherited : List α) (name : String) :
    (takenOver (fun mine item => key mine == key item) own inherited).find? (key · == name) =
      (own.find? (key · == name)).or (inherited.find? (key · == name)) := by
  rw [takenOver, List.find?_append]
  cases found : own.find? (key · == name) with
  | some mine =>
      have named : key mine = name := by simpa using List.find?_some found
      have replaced : (inherited.filter fun item =>
          !own.any fun mine => key mine == key item).find? (key · == name) = none := by
        refine List.find?_eq_none.mpr fun item member isNamed => ?_
        have absent := (List.mem_filter.mp member).2
        have known : own.any (fun mine => key mine == key item) = true :=
          List.any_eq_true.mpr ⟨mine, List.mem_of_find?_eq_some found,
            beq_iff_eq.mpr (named.trans (beq_iff_eq.mp isNamed).symm)⟩
        rw [known] at absent
        exact nomatch absent
      rw [replaced, Option.none_or, Option.some_or]
  | none =>
      rw [Option.or_none, Option.none_or, List.find?_filter]
      refine congrArg (inherited.find? ·) (funext fun item => ?_)
      by_cases isNamed : key item = name
      · simpa [isNamed] using List.find?_eq_none.mp found
      · simp [isNamed]

/-- Nothing that holds of no inherited item is found among what is taken over. -/
theorem filter {holds : α → Bool} (silent : ∀ item ∈ inherited, holds item = false) :
    (takenOver replaces own inherited).filter holds = own.filter holds := by
  have nothing : (inherited.filter fun item => !own.any (replaces · item)).filter holds = [] :=
    List.filter_eq_nil_iff.mpr fun item member => by
      rw [silent item (List.mem_filter.mp member).1]
      exact Bool.false_ne_true
  rw [takenOver, List.filter_append, nothing, List.nil_append]

/-- The same, where the items that are not replaced are those whose name is not found. -/
theorem of_find? (key : α → String) (own inherited : List α) :
    (inherited.filter fun item => (own.find? (key · == key item)).isNone) ++ own =
      takenOver (fun mine item => key mine == key item) own inherited := by
  refine congrArg (· ++ own) (List.filter_congr fun item _ => ?_)
  rw [Bool.eq_iff_iff]
  simp

end takenOver

theorem PutsFirst.congr {α : Type} {replaces others : α → α → Prop}
    {inherited own merged : List α} (same : ∀ mine item, replaces mine item ↔ others mine item)
    (first : PutsFirst replaces inherited own merged) : PutsFirst others inherited own merged := by
  obtain ⟨taken, rfl, sublist, untouched⟩ := first
  exact ⟨taken, rfl, sublist, fun item member => (untouched item member).trans
    (forall₂_congr fun mine _ => not_congr (same mine item))⟩

end Adl
