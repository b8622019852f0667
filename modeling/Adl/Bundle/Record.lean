import Adl.Bundle.Packed

namespace Adl

/-! Reading what packed values stand for. A structure is a map from field names or an
array of all its fields; an alternative is named by text or by its position. How many
levels of arrays and maps may still be opened is given by `room`; the map around an
alternative is not counted. -/

namespace Packed

/-- Text may also come as binary data. -/
def string? : Packed → Option String
  | .text bytes | .binary bytes => String.fromUTF8? ⟨bytes.toArray⟩
  | _ => none

def bool? : Packed → Option Bool
  | .bool value => some value
  | _ => none

def integer? : Packed → Option Int
  | .unsigned value => some value.toNat
  | .signed value => some value.toInt
  | _ => none

/-- A natural number below a bound. -/
def naturalBelow? (bound : Nat) (packed : Packed) : Option Nat := do
  let value ← packed.integer?
  if 0 ≤ value ∧ value < bound then some value.toNat else none

def uint16? (packed : Packed) : Option UInt16 :=
  (packed.naturalBelow? UInt16.size).map UInt16.ofNat

def uint32? (packed : Packed) : Option UInt32 :=
  (packed.naturalBelow? UInt32.size).map UInt32.ofNat

def int64? (packed : Packed) : Option Int64 := do
  let value ← packed.integer?
  if Int64.minValue.toInt ≤ value ∧ value ≤ Int64.maxValue.toInt then
    some (Int64.ofInt value)
  else
    none

def option? {α : Type} (read : Packed → Option α) : Packed → Option (Option α)
  | .null => some none
  | packed => (read packed).map some

/-- The items are read with the room that is left inside. Empty binary data is an empty
list. -/
def list? {α : Type} (read : Nat → Packed → Option α) : Nat → Packed → Option (List α)
  | room + 1, .array items => items.mapM (read room)
  | _, .binary [] => some []
  | _, _ => none

/-! ## Names -/

/-- Which of the names is meant, if any; some values cannot stand for a name. -/
def nameAmong? (names : List String) : Packed → Option (Option String)
  | .text bytes | .binary bytes =>
      some (names.find? fun name => name.toUTF8.data.toList == bytes)
  | .unsigned index => some names[index.toNat]?
  | _ => none

/-- An alternative with its contents, if it has any. -/
def variant? (names : List String) : Packed → Option (String × Option Packed)
  | .map [(key, contents)] => do return (← (← key.nameAmong? names), some contents)
  | .map _ => none
  | packed => do return (← (← packed.nameAmong? names), none)

/-- An alternative that has no contents. -/
def unit? (names : List String) (packed : Packed) : Option String := do
  match ← packed.variant? names with
  | (name, none) | (name, some .null) => some name
  | _ => none

end Packed

/-! ## Structures -/

/-- The fields of a structure that are present, by name. -/
structure Record where
  fields : List (String × Packed)

namespace Record

def find? (record : Record) (name : String) : Option Packed :=
  (record.fields.find? (·.1 == name)).map (·.2)

/-- Takes the fields of a map. None may come twice; unknown ones are skipped. -/
def ofEntries? (names : List String) (room : Nat) :
    List (Packed × Packed) → Record → Option Record
  | [], record => some record
  | (key, value) :: rest, record =>
      match key.nameAmong? names with
      | none => none
      | some none => if value.nesting ≤ room then ofEntries? names room rest record else none
      | some (some name) =>
          if (record.find? name).isSome then none
          else ofEntries? names room rest ⟨record.fields ++ [(name, value)]⟩

/-- Opens a structure with these fields, with the room that is left inside. -/
def ofPacked? (names : List String) (room : Nat) : Packed → Option Record
  | .map entries => ofEntries? names room entries ⟨[]⟩
  | .array items =>
      if items.length = names.length then some ⟨names.zip items⟩ else none
  | _ => none

def field? {α : Type} (record : Record) (name : String) (read : Packed → Option α) :
    Option α := do
  read (← record.find? name)

/-- A field that may be left out. -/
def optional? {α : Type} (record : Record) (name : String) (read : Packed → Option α) :
    Option (Option α) :=
  match record.find? name with
  | none => some none
  | some packed => packed.option? read

end Record

end Adl
