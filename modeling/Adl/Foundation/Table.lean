namespace Adl

/-! Tables keyed by text. The entries stand in the order in which their keys
first came; a key that comes again keeps its place and takes the later value. -/

structure Table (α : Type) where
  entries : List (String × α)
deriving Repr, Inhabited

namespace Table

variable {α : Type}

def empty : Table α := ⟨[]⟩

def findEntry (key : String) : List (String × α) → Option α
  | [] => none
  | (other, value) :: rest => if other = key then some value else findEntry key rest

def find? (table : Table α) (key : String) : Option α :=
  findEntry key table.entries

def contains (table : Table α) (key : String) : Bool :=
  (table.find? key).isSome

def insertEntry (key : String) (value : α) :
    List (String × α) → List (String × α)
  | [] => [(key, value)]
  | (other, kept) :: rest =>
      if key = other then (key, value) :: rest
      else (other, kept) :: insertEntry key value rest

def insert (table : Table α) (key : String) (value : α) : Table α :=
  ⟨insertEntry key value table.entries⟩

def keys (table : Table α) : List String :=
  table.entries.map (·.1)

def values (table : Table α) : List α :=
  table.entries.map (·.2)

def ofList (entries : List (String × α)) : Table α :=
  entries.foldl (fun table entry => table.insert entry.1 entry.2) empty

theorem findEntry_insertEntry (key other : String) (value : α)
    (entries : List (String × α)) :
    findEntry other (insertEntry key value entries) =
      if key = other then some value else findEntry other entries := by
  induction entries with
  | nil => simp [insertEntry, findEntry]
  | cons entry rest induction =>
      obtain ⟨head, kept⟩ := entry
      by_cases equal : key = head
      · subst equal
        by_cases same : key = other <;> simp [insertEntry, findEntry, same]
      · by_cases same : head = other
        · subst same
          simp [insertEntry, findEntry, equal]
        · simp [insertEntry, findEntry, equal, same, induction]

@[simp] theorem find?_empty (key : String) :
    (empty : Table α).find? key = none := rfl

@[simp] theorem find?_insert (table : Table α) (key other : String) (value : α) :
    (table.insert key value).find? other =
      if key = other then some value else table.find? other :=
  findEntry_insertEntry key other value table.entries

end Table

end Adl
