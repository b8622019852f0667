import Adl.Bundle.Element
import Mathlib.Logic.Basic

namespace Adl

/-! Packed parts are read as what was packed. What takes room is read exactly where
there is as much of it as its levels say. -/

namespace Packed

/-- The levels of a structure or a list around parts of these levels. -/
def levelsAround (parts : List Nat) : Nat :=
  parts.foldr max 0 + 1

/-- The levels of a part that may be absent. -/
def levelsOfOption {α : Type} (levels : α → Nat) (part : Option α) : Nat :=
  (part.map levels).getD 0

theorem levelsAround_le_succ {parts : List Nat} {room : Nat} :
    levelsAround parts ≤ room + 1 ↔ ∀ levels ∈ parts, levels ≤ room := by
  have largest : parts.foldr max 0 ≤ room ↔ ∀ levels ∈ parts, levels ≤ room := by
    induction parts with
    | nil => simp
    | cons levels parts induction =>
        rw [List.foldr_cons, Nat.max_le, induction, List.forall_mem_cons]
  rw [levelsAround, Nat.add_le_add_iff_right, largest]

@[simp] theorem levelsAround_ne_zero (parts : List Nat) : levelsAround parts ≠ 0 :=
  Nat.succ_ne_zero _

theorem not_levelsAround_le_zero (parts : List Nat) : ¬levelsAround parts ≤ 0 :=
  Nat.not_succ_le_zero _

/-! ## What follows a part

The library's lemma about `some value` holds by computation. A kernel that checks it on
the readers of numbers computes these first, so this one is proved by rewriting. -/

theorem bind_present {α β : Type} (value : β) (next : β → Option α) :
    (some value).bind next = next value := by
  rw [Option.bind_some]

/-- What follows a part is only read where there is room for the part. -/
theorem bind_ite {α β : Type} {p : Prop} [Decidable p] (value : β) (next : β → Option α) :
    (if p then some value else none).bind next = if p then next value else none := by
  split <;> rfl

/-! ## Plain parts -/

@[simp] theorem string?_ofString (text : String) : (ofString text).string? = some text := by
  have valid : (⟨text.toUTF8.data.toList.toArray⟩ : ByteArray) = text.toByteArray := by
    rw [Array.toArray_toList]
    rfl
  rw [ofString, string?, valid, String.fromUTF8?, dif_pos text.isValidUTF8]
  rfl

theorem ofString_injective : Function.Injective ofString := by
  intro left right equal
  have read := congrArg string? equal
  rw [string?_ofString, string?_ofString] at read
  exact Option.some.inj read

theorem ofString_ne_null (text : String) : ofString text ≠ .null :=
  Packed.noConfusion

@[simp] theorem bool?_bool (value : Bool) : (Packed.bool value).bool? = some value :=
  rfl

theorem naturalBelow?_unsigned {bound : Nat} {value : UInt64} (below : value.toNat < bound) :
    (Packed.unsigned value).naturalBelow? bound = some value.toNat := by
  simp only [naturalBelow?, integer?, Option.bind_eq_bind, Option.bind_some]
  rw [if_pos ⟨Int.natCast_nonneg _, Int.ofNat_lt.mpr below⟩, Int.toNat_natCast]

@[simp] theorem uint16?_unsigned (value : UInt16) :
    (Packed.unsigned value.toUInt64).uint16? = some value := by
  have below : value.toUInt64.toNat < UInt16.size := value.toNat_lt
  rw [uint16?, naturalBelow?_unsigned below]
  exact congrArg some UInt16.ofNat_toNat

@[simp] theorem uint32?_unsigned (value : UInt32) :
    (Packed.unsigned value.toUInt64).uint32? = some value := by
  have below : value.toUInt64.toNat < UInt32.size := value.toNat_lt
  rw [uint32?, naturalBelow?_unsigned below]
  exact congrArg some UInt32.ofNat_toNat

@[simp] theorem int64?_ofInt64 (value : Int64) : (ofInt64 value).int64? = some value := by
  have integer : (ofInt64 value).integer? = some value.toInt := by
    rw [ofInt64]
    split
    · rfl
    · rename_i positive
      have least : 0 ≤ value := Int64.not_lt.mp positive
      rw [integer?, Int64.toNat_toUInt64_of_le least, Int64.cast_toNatClampNeg value least]
  rw [int64?, integer]
  simp only [Option.bind_eq_bind, Option.bind_some]
  rw [if_pos ⟨value.le_toInt, value.toInt_le⟩, Int64.ofInt_toInt]

/-! ## Names -/

theorem nameAmong?_ofString {names : List String} {name : String} (known : name ∈ names) :
    (ofString name).nameAmong? names = some (some name) := by
  have among : (names.find? fun other => other.toUTF8.data.toList == name.toUTF8.data.toList) =
      some name := by
    have isSome : (names.find? fun other =>
        other.toUTF8.data.toList == name.toUTF8.data.toList).isSome :=
      List.find?_isSome.mpr ⟨name, known, beq_self_eq_true _⟩
    obtain ⟨found, found_eq⟩ := Option.isSome_iff_exists.mp isSome
    have sameBytes := List.find?_some found_eq
    have same : found = name := ofString_injective (congrArg Packed.text (eq_of_beq sameBytes))
    rw [found_eq, same]
  exact congrArg some among

@[simp] theorem variant?_ofVariant {names : List String} {name : String} (known : name ∈ names)
    (contents : Packed) :
    (ofVariant name contents).variant? names = some (name, some contents) := by
  have among := nameAmong?_ofString known
  rw [ofVariant]
  simp only [variant?, among, Option.bind_eq_bind, Option.bind_some]
  rfl

@[simp] theorem variant?_ofString {names : List String} {name : String} (known : name ∈ names) :
    (ofString name).variant? names = some (name, none) := by
  have among := nameAmong?_ofString known
  rw [ofString] at among ⊢
  simp only [variant?, among, Option.bind_eq_bind, Option.bind_some]
  rfl

@[simp] theorem unit?_ofString {names : List String} {name : String} (known : name ∈ names) :
    (ofString name).unit? names = some name := by
  rw [unit?, variant?_ofString known]
  rfl

end Packed

/-! ## Structures -/

namespace Record

theorem ofEntries?_append {names : List String} {room : Nat}
    (fields : List (String × Packed)) (known : ∀ field ∈ fields, field.1 ∈ names)
    (record : Record) (distinct : ((record.fields ++ fields).map (·.1)).Nodup) :
    ofEntries? names room (fields.map fun (name, value) => (.ofString name, value)) record =
      some ⟨record.fields ++ fields⟩ := by
  induction fields generalizing record with
  | nil => rw [List.append_nil]; rfl
  | cons field fields induction =>
      obtain ⟨name, value⟩ := field
      have isKnown : name ∈ names := known (name, value) List.mem_cons_self
      have isNew : (record.find? name).isSome = false := by
        rw [List.map_append, List.map_cons] at distinct
        have apart := (List.nodup_append.mp distinct).2.2
        rw [Record.find?, Option.isSome_map, Bool.eq_false_iff, Ne, List.find?_isSome]
        rintro ⟨earlier, member, same⟩
        exact apart earlier.1 (List.mem_map_of_mem member) name List.mem_cons_self
          (eq_of_beq same)
      have inOrder : record.fields ++ (name, value) :: fields =
          (record.fields ++ [(name, value)]) ++ fields := by
        rw [List.append_assoc]
        rfl
      rw [inOrder] at distinct ⊢
      rw [List.map_cons, ofEntries?, Packed.nameAmong?_ofString isKnown]
      simp only [isNew]
      exact induction (fun field member => known field (List.mem_cons_of_mem _ member))
        ⟨record.fields ++ [(name, value)]⟩ distinct

/-- A structure is opened as the record of its fields. -/
theorem ofPacked?_ofFields {names : List String} {fields : List (String × Packed)}
    (named : fields.map (·.1) = names) (distinct : names.Nodup) (room : Nat) :
    ofPacked? names room (.ofFields fields) = some ⟨fields⟩ := by
  subst named
  exact ofEntries?_append fields (fun field member => List.mem_map_of_mem member) ⟨[]⟩ distinct

theorem bind_ofFields {α : Type} {names : List String} {fields : List (String × Packed)}
    (named : fields.map (·.1) = names) (distinct : names.Nodup) (room : Nat)
    (next : Record → Option α) :
    (ofPacked? names room (.ofFields fields) >>= next) = next ⟨fields⟩ := by
  rw [ofPacked?_ofFields named distinct, Option.bind_eq_bind, Packed.bind_present]

variable {α : Type} {name : String} {value : Packed} {fields : List (String × Packed)}

theorem find?_first : find? ⟨(name, value) :: fields⟩ name = some value := by
  rw [find?, List.find?_cons, beq_self_eq_true]
  rfl

theorem find?_later {other : String} (distinct : name ≠ other) :
    find? ⟨(name, value) :: fields⟩ other = find? ⟨fields⟩ other := by
  rw [find?, List.find?_cons, beq_false_of_ne distinct]
  rfl

@[simp] theorem field?_first (read : Packed → Option α) :
    field? ⟨(name, value) :: fields⟩ name read = read value := by
  rw [field?, find?_first]
  rfl

@[simp] theorem field?_later {other : String} (distinct : name ≠ other)
    (read : Packed → Option α) :
    field? ⟨(name, value) :: fields⟩ other read = field? ⟨fields⟩ other read := by
  rw [field?, find?_later distinct, field?]

@[simp] theorem optional?_first (read : Packed → Option α) :
    optional? ⟨(name, value) :: fields⟩ name read = value.option? read := by
  rw [optional?, find?_first]

@[simp] theorem optional?_later {other : String} (distinct : name ≠ other)
    (read : Packed → Option α) :
    optional? ⟨(name, value) :: fields⟩ other read = optional? ⟨fields⟩ other read := by
  rw [optional?, find?_later distinct, optional?]

end Record

/-! ## Parts that take room -/

/-- A part is read exactly where there is room for its levels. -/
def Reads {α : Type} (read : Nat → Packed → Option α) (packed : Packed) (levels : Nat)
    (value : α) : Prop :=
  ∀ room, read room packed = if levels ≤ room then some value else none

namespace Reads

variable {α β : Type}

/-- What opens a structure or a list needs room for it, and then for the parts inside. -/
theorem around {read : Nat → Packed → Option α} {packed : Packed} {parts : List Nat} {value : α}
    (closed : read 0 packed = none)
    (opened : ∀ room, read (room + 1) packed =
      if ∀ levels ∈ parts, levels ≤ room then some value else none) :
    Reads read packed (Packed.levelsAround parts) value := by
  intro room
  cases room with
  | zero => rw [closed, if_neg (Packed.not_levelsAround_le_zero parts)]
  | succ room =>
      simp only [opened, Packed.levelsAround_le_succ]

end Reads

namespace Packed

variable {α β : Type} {levels : β → Nat} {pack : β → Packed} {stored : β → α}

/-- The items of a list are read one by one. -/
theorem mapM_map {read : Packed → Option α} {room : Nat} {items : List β}
    (reads : ∀ item ∈ items, read (pack item) =
      if levels item ≤ room then some (stored item) else none) :
    (items.map pack).mapM read =
      if ∀ inside ∈ items.map levels, inside ≤ room then some (items.map stored) else none := by
  induction items with
  | nil => simp
  | cons item items induction =>
      have first := reads item List.mem_cons_self
      have others := induction fun item member => reads item (List.mem_cons_of_mem _ member)
      rw [List.map_cons, List.mapM_cons, first, others]
      simp only [List.map_cons, List.forall_mem_cons, ite_and, Option.bind_eq_bind, bind_ite]
      rfl

theorem reads_list {read : Nat → Packed → Option α} {items : List β}
    (reads : ∀ item ∈ items, Reads read (pack item) (levels item) (stored item)) :
    Reads (list? read) (ofList pack items) (levelsAround (items.map levels))
      (items.map stored) :=
  .around rfl fun room => mapM_map fun item member => reads item member room

/-- What may be absent is read where there is room for what is there. -/
theorem option?_ofOption {read : Packed → Option α} {room : Nat} {part : Option β}
    (present : ∀ value, pack value ≠ .null)
    (reads : ∀ value, read (pack value) =
      if levels value ≤ room then some (stored value) else none) :
    (ofOption pack part).option? read =
      if levelsOfOption levels part ≤ room then some (part.map stored) else none := by
  cases part with
  | none => exact (if_pos (Nat.zero_le room)).symm
  | some value =>
      have opened : (pack value).option? read = (read (pack value)).map some := by
        have isPresent := present value
        generalize pack value = packed at isPresent
        cases packed with
        | null => exact absurd rfl isPresent
        | _ => rfl
      rw [ofOption, opened, reads]
      change _ = if levels value ≤ room then some (some (stored value)) else none
      split <;> rfl

theorem option?_plain {read : Packed → Option β} {part : Option β}
    (present : ∀ value, pack value ≠ .null)
    (reads : ∀ value, read (pack value) = some value) :
    (ofOption pack part).option? read = some part := by
  have read_eq (value : β) : read (pack value) = if 0 ≤ 0 then some (id value) else none :=
    reads value
  have opened : (ofOption pack part).option? read =
      if levelsOfOption (fun _ => 0) part ≤ 0 then some (part.map id) else none :=
    option?_ofOption present read_eq
  have noLevels : levelsOfOption (fun _ => 0) part ≤ 0 := by cases part <;> exact Nat.le_refl 0
  rw [opened, if_pos noLevels, Option.map_id, id]

end Packed

end Adl
