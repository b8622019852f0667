import Adl.Foundation.Table
import Mathlib.Data.List.Infix

namespace Adl.Table

/-! What the entries of a table say about its look-ups, and how a table grows. -/

variable {α : Type} {table later : Table α} {key : String} {value : α}

theorem findEntry_append (key : String) (first second : List (String × α)) :
    findEntry key (first ++ second) = (findEntry key first).or (findEntry key second) := by
  induction first with
  | nil => rfl
  | cons entry rest induction =>
      obtain ⟨head, kept⟩ := entry
      by_cases equal : head = key <;> simp [findEntry, equal, induction]

theorem findEntry_eq_none_iff (key : String) (entries : List (String × α)) :
    findEntry key entries = none ↔ key ∉ entries.map (·.1) := by
  induction entries with
  | nil => simp [findEntry]
  | cons entry rest induction =>
      obtain ⟨head, kept⟩ := entry
      by_cases equal : head = key
      · simp [findEntry, equal]
      · simp [findEntry, equal, induction, Ne.symm equal]

theorem mem_of_findEntry {entries : List (String × α)}
    (found : findEntry key entries = some value) : (key, value) ∈ entries := by
  induction entries with
  | nil => simp [findEntry] at found
  | cons entry rest induction =>
      obtain ⟨head, kept⟩ := entry
      by_cases equal : head = key
      · simp only [findEntry, equal, if_true, Option.some.injEq] at found
        simp [equal, found]
      · simp only [findEntry, equal, if_false] at found
        exact List.mem_cons_of_mem _ (induction found)

theorem findEntry_of_mem {entries : List (String × α)}
    (nodup : (entries.map (·.1)).Nodup) (member : (key, value) ∈ entries) :
    findEntry key entries = some value := by
  induction entries with
  | nil => cases member
  | cons entry rest induction =>
      obtain ⟨head, kept⟩ := entry
      have parts := List.nodup_cons.mp nodup
      rcases List.mem_cons.mp member with equal | member
      · cases equal
        simp [findEntry]
      · have different : head ≠ key := fun equal =>
          parts.1 (equal ▸ List.mem_map_of_mem (f := (·.1)) member)
        simp [findEntry, different, induction parts.2 member]

theorem insertEntry_of_not_mem {entries : List (String × α)}
    (fresh : key ∉ entries.map (·.1)) :
    insertEntry key value entries = entries ++ [(key, value)] := by
  induction entries with
  | nil => rfl
  | cons entry rest induction =>
      obtain ⟨head, kept⟩ := entry
      have parts : key ≠ head ∧ key ∉ rest.map (·.1) := by simpa using fresh
      simp [insertEntry, parts.1, induction parts.2]

theorem mem_insertEntry {entries : List (String × α)} {entry : String × α}
    (member : entry ∈ insertEntry key value entries) : entry = (key, value) ∨ entry ∈ entries := by
  induction entries with
  | nil => exact .inl (List.mem_singleton.mp member)
  | cons first rest induction =>
      obtain ⟨head, kept⟩ := first
      rw [insertEntry] at member
      split at member
      · rcases List.mem_cons.mp member with rfl | among
        · exact .inl rfl
        · exact .inr (List.mem_cons_of_mem _ among)
      · rcases List.mem_cons.mp member with rfl | among
        · exact .inr List.mem_cons_self
        · exact (induction among).imp_right (List.mem_cons_of_mem _)

/-! ## The view by keys -/

theorem mem_entries_of_find? (found : table.find? key = some value) :
    (key, value) ∈ table.entries :=
  mem_of_findEntry found

theorem mem_values_of_find? (found : table.find? key = some value) : value ∈ table.values :=
  List.mem_map_of_mem (mem_entries_of_find? found)

/-- What is inserted may take the place of one other value. -/
theorem mem_values_insert {added : α} (member : value ∈ (table.insert key added).values) :
    value = added ∨ value ∈ table.values := by
  obtain ⟨entry, among, rfl⟩ := List.mem_map.mp member
  rcases mem_insertEntry among with rfl | old
  · exact .inl rfl
  · exact .inr (List.mem_map_of_mem old)

theorem find?_of_mem_entries (nodup : table.keys.Nodup) (member : (key, value) ∈ table.entries) :
    table.find? key = some value :=
  findEntry_of_mem nodup member

theorem contains_eq_true_iff : table.contains key = true ↔ ∃ value, table.find? key = some value :=
  Option.isSome_iff_exists

theorem find?_eq_none_of_not_contains (absent : table.contains key = false) :
    table.find? key = none := by
  simpa [contains] using absent

/-- A key that was not there comes last. -/
theorem entries_insert_of_find?_none (absent : table.find? key = none) (value : α) :
    (table.insert key value).entries = table.entries ++ [(key, value)] :=
  insertEntry_of_not_mem ((findEntry_eq_none_iff key table.entries).mp absent)

theorem nodup_keys_insert (nodup : table.keys.Nodup) (absent : table.find? key = none)
    (value : α) : (table.insert key value).keys.Nodup := by
  have fresh := (findEntry_eq_none_iff key table.entries).mp absent
  simp only [keys, entries_insert_of_find?_none absent, List.map_append, List.map_cons,
    List.map_nil]
  refine List.nodup_append.mpr ⟨nodup, List.nodup_cons.mpr ⟨by simp, .nil⟩, ?_⟩
  intro left leftMember right rightMember equal
  rw [List.mem_singleton] at rightMember
  exact fresh (rightMember ▸ equal ▸ leftMember)

/-- Look-ups that succeed stay as they are while entries are added at the end. -/
theorem find?_of_prefix (grows : table.entries <+: later.entries)
    (found : table.find? key = some value) : later.find? key = some value := by
  obtain ⟨added, equal⟩ := grows
  simp only [find?] at found ⊢
  rw [← equal, findEntry_append, found]
  rfl

theorem getElem?_of_prefix {position : Nat} {entry : String × α}
    (grows : table.entries <+: later.entries)
    (found : table.entries[position]? = some entry) : later.entries[position]? = some entry := by
  obtain ⟨added, equal⟩ := grows
  have within := (List.getElem?_eq_some_iff.mp found).1
  rw [← equal, List.getElem?_append_left within, found]

theorem contains_iff_mem_keys : table.contains key = true ↔ key ∈ table.keys := by
  have absent := findEntry_eq_none_iff key table.entries
  unfold contains find? keys
  rw [Option.isSome_iff_ne_none, Ne, absent, not_not]

theorem keys_insert (table : Table α) (key : String) (value : α) :
    (table.insert key value).keys =
      if key ∈ table.keys then table.keys else table.keys ++ [key] := by
  obtain ⟨entries⟩ := table
  change (insertEntry key value entries).map (·.1) =
    if key ∈ entries.map (·.1) then entries.map (·.1) else entries.map (·.1) ++ [key]
  induction entries with
  | nil => rfl
  | cons entry rest induction =>
      by_cases equal : key = entry.1
      · simp [insertEntry, equal]
      · by_cases among : key ∈ rest.map (·.1) <;>
          simp_all [insertEntry]

/-- What is chosen from the values is chosen by their keys. -/
theorem filterMap_values {β : Type} (nodup : table.keys.Nodup) (choose : α → Option β) :
    table.values.filterMap choose =
      table.keys.filterMap fun key => (table.find? key).bind choose := by
  unfold values keys
  rw [List.filterMap_map, List.filterMap_map]
  refine List.filterMap_congr fun entry member => ?_
  simp [find?_of_mem_entries nodup member]

theorem eq_of_keys_values (keys : table.keys = later.keys) (values : table.values = later.values) :
    table = later := by
  obtain ⟨entries⟩ := table
  obtain ⟨others⟩ := later
  have same : entries = others := (List.zip_of_prod keys values).trans (List.zip_of_prod rfl rfl).symm
  rw [same]

end Adl.Table
