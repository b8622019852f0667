import Adl.Signature
import Mathlib.Data.List.Basic
import Mathlib.Logic.Relation

namespace Adl

/-- What extends an extension extends its base. -/
def IsTransitive (extends? : String → String → Bool) : Prop :=
  ∀ ⦃first second third : String⦄, extends? first second = true → extends? second third = true →
    extends? first third = true

namespace SignatureTable

/-! One signature extends another when the parents lead from the one to the other. The search
drops the entries that it has followed, and loses nothing by that: a way that comes back to a
signature can be cut short. So declarations only add extensions, whatever order they come in. -/

open Relation

/-- The entries list `parent` among the parents of `signature`. -/
def IsParent (entries : List (String × List String)) (signature parent : String) : Prop :=
  ∃ entry, entries.find? (·.1 == signature) = some entry ∧ parent ∈ entry.2

variable {entries : List (String × List String)} {base signature start : String}
  {entry : String × List String}

theorem find?_dropEntry (different : start ≠ signature) :
    (dropEntry signature entries).find? (·.1 == start) = entries.find? (·.1 == start) := by
  unfold dropEntry
  rw [List.find?_filter]
  congr 1
  funext entry
  by_cases same : entry.1 = start <;> simp [same, different]

theorem find?_dropEntry_self : (dropEntry signature entries).find? (·.1 == signature) = none := by
  simp [dropEntry]

theorem IsParent.of_dropEntry {parent : String}
    (isParent : IsParent (dropEntry signature entries) start parent) :
    IsParent entries start parent := by
  obtain ⟨entry, found, member⟩ := isParent
  by_cases same : start = signature
  · rw [same, find?_dropEntry_self] at found
    exact nomatch found
  · exact ⟨entry, find?_dropEntry same ▸ found, member⟩

/-- A way either avoids a signature, or its last part leads on from a parent of the signature. -/
theorem transGen_dropEntry (found : entries.find? (·.1 == signature) = some entry)
    (leads : TransGen (IsParent entries) start base) :
    TransGen (IsParent (dropEntry signature entries)) start base ∨ base ∈ entry.2 ∨
      ∃ parent ∈ entry.2, TransGen (IsParent (dropEntry signature entries)) parent base := by
  have avoids : ∀ {start parent : String}, start ≠ signature → IsParent entries start parent →
      IsParent (dropEntry signature entries) start parent := by
    rintro start parent different ⟨other, isEntry, member⟩
    exact ⟨other, (find?_dropEntry different).trans isEntry, member⟩
  have own : ∀ {parent : String}, IsParent entries signature parent → parent ∈ entry.2 := by
    rintro parent ⟨other, isEntry, member⟩
    cases found.symm.trans isEntry
    exact member
  induction leads using TransGen.head_induction_on with
  | @single start isParent =>
      by_cases same : start = signature
      · exact .inr (.inl (own (same ▸ isParent)))
      · exact .inl (.single (avoids same isParent))
  | @head start next isParent _ induction =>
      rcases induction with later | last
      · by_cases same : start = signature
        · exact .inr (.inr ⟨next, own (same ▸ isParent), later⟩)
        · exact .inl (.head (avoids same isParent) later)
      · exact .inr last

theorem reaches_iff {pending : List String} : reaches base entries pending = true ↔
    ∃ signature ∈ pending, TransGen (IsParent entries) signature base := by
  induction entries, pending using reaches.induct with
  | case1 entries => simp [reaches]
  | case2 entries signature pending absent induction =>
      have leadsNowhere : ¬TransGen (IsParent entries) signature base := by
        intro leads
        obtain ⟨_, ⟨entry, found, -⟩, -⟩ := TransGen.head'_iff.mp leads
        exact nomatch absent.symm.trans found
      rw [reaches]
      split
      · rw [induction, List.exists_mem_cons_iff]
        exact (or_iff_right leadsNowhere).symm
      · rename_i found
        exact nomatch absent.symm.trans found
  | case3 entries signature pending name parents found induction =>
      rw [reaches]
      split
      · rename_i absent
        exact nomatch absent.symm.trans found
      · rename_i other others foundAlso
        cases found.symm.trans foundAlso
        rw [Bool.or_eq_true, List.contains_iff_mem, induction]
        have monotone : ∀ {start}, TransGen (IsParent (dropEntry signature entries)) start base →
            TransGen (IsParent entries) start base :=
          fun leads => TransGen.mono (fun _ _ => IsParent.of_dropEntry) _ _ leads
        have isParent : ∀ parent ∈ parents, IsParent entries signature parent :=
          fun parent member => ⟨_, found, member⟩
        constructor
        · rintro (direct | ⟨start, member, leads⟩)
          · exact ⟨signature, List.mem_cons_self, .single (isParent base direct)⟩
          · rcases List.mem_append.mp member with isPending | isNext
            · exact ⟨start, List.mem_cons_of_mem _ isPending, monotone leads⟩
            · exact ⟨signature, List.mem_cons_self, .head (isParent start isNext) (monotone leads)⟩
        · rintro ⟨start, member, leads⟩
          rcases transGen_dropEntry found leads with avoids | direct | ⟨parent, isNext, last⟩
          · rcases List.mem_cons.mp member with rfl | isPending
            · obtain ⟨_, ⟨entry, stillFound, -⟩, -⟩ := TransGen.head'_iff.mp avoids
              exact nomatch find?_dropEntry_self.symm.trans stillFound
            · exact .inr ⟨start, List.mem_append_left _ isPending, avoids⟩
          · exact .inl direct
          · exact .inr ⟨parent, List.mem_append_right _ isNext, last⟩

/-- The table knows of an extension exactly when its parents lead there in one or more steps. -/
theorem extends?_iff_transGen {table : SignatureTable} :
    table.extends? signature base = true ↔
      TransGen (IsParent table.parents.entries) signature base := by
  simp [extends?, reaches_iff]

theorem isTransitive_extends? (table : SignatureTable) : IsTransitive table.extends? :=
  fun _ _ _ first second => extends?_iff_transGen.mpr
    ((extends?_iff_transGen.mp first).trans (extends?_iff_transGen.mp second))

/-! ## Declarations -/

/-- The table gives `parent` among the direct parents of `signature`. -/
def Declares (table : SignatureTable) (signature parent : String) : Prop :=
  ∃ parents, table.parents.find? signature = some parents ∧ parent ∈ parents

/-- Declares each of the pairs in turn. -/
def declareAll (table : SignatureTable) (declarations : List (String × String)) : SignatureTable :=
  declarations.foldl (fun table declaration => table.declare declaration.1 declaration.2) table

variable {table : SignatureTable} {parent : String}

theorem findEntry_eq (key : String) (entries : List (String × List String)) :
    Table.findEntry key entries = (entries.find? (·.1 == key)).map (·.2) := by
  induction entries with
  | nil => rfl
  | cons entry rest induction =>
      by_cases same : entry.1 = key <;> simp [Table.findEntry, same, induction]

theorem isParent_iff :
    IsParent table.parents.entries signature parent ↔ table.Declares signature parent := by
  simp only [IsParent, Declares, Table.find?, findEntry_eq, Option.map_eq_some_iff]
  constructor
  · rintro ⟨entry, found, member⟩
    exact ⟨entry.2, ⟨entry, found, rfl⟩, member⟩
  · rintro ⟨_, ⟨entry, found, rfl⟩, member⟩
    exact ⟨entry, found, member⟩

theorem declares_declare {declared added : String} :
    (table.declare declared added).Declares signature parent ↔
      table.Declares signature parent ∨ signature = declared ∧ parent = added := by
  unfold Declares declare
  rw [Table.find?_insert]
  by_cases same : declared = signature
  · subst same
    cases known : table.parents.find? declared with
    | none => simp
    | some parents => simp
  · simp [same, Ne.symm same]

/-- What a table declares after some declarations is what it did before, and these. -/
theorem declares_declareAll {declarations : List (String × String)} :
    (table.declareAll declarations).Declares signature parent ↔
      table.Declares signature parent ∨ (signature, parent) ∈ declarations := by
  induction declarations generalizing table with
  | nil => simp [declareAll]
  | cons declaration rest induction =>
      have step : table.declareAll (declaration :: rest) =
          (table.declare declaration.1 declaration.2).declareAll rest := rfl
      rw [step, induction, declares_declare, List.mem_cons, Prod.ext_iff, or_assoc]

theorem extends?_iff : table.extends? signature base = true ↔
    TransGen table.Declares signature base := by
  rw [extends?_iff_transGen]
  have same : IsParent table.parents.entries = table.Declares := by
    funext signature parent
    exact propext isParent_iff
  rw [same]

/-- Extension is the transitive closure of what is declared, of any table and of one that is made
by declarations. So it is transitive, and more declarations take no extension away. -/
theorem extension_is_closure (table : SignatureTable) :
    (∀ signature base, table.extends? signature base = true ↔
      TransGen table.Declares signature base) ∧
    (∀ declarations signature base, (empty.declareAll declarations).extends? signature base = true ↔
      TransGen (fun signature parent => (signature, parent) ∈ declarations) signature base) ∧
    IsTransitive table.extends? ∧
    ∀ declarations signature base, table.extends? signature base = true →
      (table.declareAll declarations).extends? signature base = true := by
  refine ⟨fun _ _ => extends?_iff, fun declarations signature base => ?_,
    isTransitive_extends? table, fun declarations signature base isExtension => ?_⟩
  · have declared : (empty.declareAll declarations).Declares =
        fun signature parent => (signature, parent) ∈ declarations := by
      funext signature parent
      rw [declares_declareAll, eq_iff_iff, or_iff_right]
      rintro ⟨_, found, -⟩
      exact nomatch found
    rw [extends?_iff, declared]
  · exact extends?_iff.mpr (TransGen.mono (fun _ _ declares =>
      declares_declareAll.mpr (.inl declares)) _ _ (extends?_iff.mp isExtension))

end SignatureTable

end Adl
