import Adl.Foundation.Table
import Adl.Text.Json

namespace Adl

/-! Interface signatures and the signatures that each of them extends directly. -/

structure SignatureTable where
  parents : Table (List String)

namespace SignatureTable

def empty : SignatureTable := ⟨.empty⟩

instance : Inhabited SignatureTable := ⟨empty⟩

/-- Declares that `signature` directly extends `parent`. -/
def declare (table : SignatureTable) (signature parent : String) : SignatureTable :=
  ⟨table.parents.insert signature ((table.parents.find? signature).getD [] ++ [parent])⟩

def dropEntry (signature : String) (entries : List (String × List String)) :
    List (String × List String) :=
  entries.filter (·.1 != signature)

/-- Follows the parents of the pending signatures until one of them is `base`. The
entries that are left are those of signatures not yet followed. -/
def reaches (base : String) (entries : List (String × List String)) :
    List String → Bool
  | [] => false
  | signature :: pending =>
      match _found : entries.find? (·.1 == signature) with
      | none => reaches base entries pending
      | some (_, parents) =>
          parents.contains base ||
            reaches base (dropEntry signature entries) (pending ++ parents)
termination_by pending => (entries.length, pending.length)
decreasing_by
  · exact Prod.Lex.right _ (Nat.lt_succ_self _)
  · apply Prod.Lex.left
    have member := List.mem_of_find?_eq_some _found
    have same := List.find?_some _found
    refine List.length_filter_lt_length_iff_exists.mpr ⟨_, member, ?_⟩
    simpa using same

/-- Whether `signature` extends `base` in one or more steps. -/
def extends? (table : SignatureTable) (signature base : String) : Bool :=
  reaches base table.parents.entries [signature]

example : extends? (⟨.ofList [("a", ["b"]), ("b", ["c"])]⟩) "a" "c" = true := by cbv
example : extends? (⟨.ofList [("a", ["b"]), ("b", ["c"])]⟩) "a" "a" = false := by cbv

private def names? (items : List Json) : Option (List String) :=
  items.mapM Json.string?

private def ofFields? (table : SignatureTable) :
    List (String × Json) → Option SignatureTable
  | [] => some table
  | (signature, value) :: rest => do
      let parents ← names? (← value.array?)
      -- A signature that comes again is declared anew.
      let cleared : SignatureTable := ⟨table.parents.insert signature []⟩
      ofFields? (parents.foldl (·.declare signature ·) cleared) rest

/-- Reads an object that gives each signature the array of its parents. -/
def ofJson? (value : Json) : Option SignatureTable := do
  ofFields? empty (← value.object?)

end SignatureTable

end Adl
