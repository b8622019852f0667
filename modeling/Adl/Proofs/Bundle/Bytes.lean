import Adl.Bundle.Packed

namespace Adl

/-! Packed values are read back from their bytes, whatever follows these. -/

/-! ## Words -/

namespace Word

theorem count_pos (width : Nat) : 0 < count width := by
  induction width with
  | zero => decide
  | succ width induction => exact Nat.mul_pos (by decide) induction

/-- The last byte of a word is read when the others were. -/
theorem readAfter?_succ (high width : Nat) (bytes : List UInt8) :
    readAfter? high (width + 1) bytes =
      (readAfter? high width bytes).bind fun word => readAfter? word.1 1 word.2 := by
  induction width generalizing high bytes with
  | zero => rfl
  | succ width induction =>
      cases bytes with
      | nil => rfl
      | cons byte rest => exact induction (high * 256 + byte.toNat) rest

theorem readAfter?_bytes (high width : Nat) {value : Nat} (fits : value < count width)
    (rest : List UInt8) :
    readAfter? high width (bytes width value ++ rest) = some (high * count width + value, rest) := by
  induction width generalizing value rest with
  | zero =>
      have isZero : value = 0 := Nat.lt_one_iff.mp fits
      subst isZero
      simp [readAfter?, bytes, count]
  | succ width induction =>
      have smaller : value / 256 < count width := Nat.div_lt_of_lt_mul fits
      rw [bytes, List.append_assoc, readAfter?_succ, induction smaller]
      have last : (UInt8.ofNat value).toNat = value % 256 := UInt8.toNat_ofNat'
      have whole : (high * count width + value / 256) * 256 + value % 256 =
          high * count (width + 1) + value := by
        have scaled : high * count (width + 1) = high * count width * 256 := by
          rw [count, Nat.mul_comm 256, Nat.mul_assoc]
        rw [scaled]
        omega
      simp only [Option.bind_some, List.cons_append, List.nil_append, readAfter?, last, whole]

theorem read?_bytes (width : Nat) {value : Nat} (fits : value < count width) (rest : List UInt8) :
    read? width (bytes width value ++ rest) = some (value, rest) := by
  rw [read?, readAfter?_bytes 0 width fits, Nat.zero_mul, Nat.zero_add]

theorem ofInt_lt (width : Nat) (value : Int) : ofInt width value < count width := by
  have positive : (0 : Int) < count width := Int.natCast_pos.mpr (count_pos width)
  have bound := Int.emod_lt_of_pos value positive
  have least := Int.emod_nonneg value (Int.ne_of_gt positive)
  rw [ofInt]
  omega

/-- A number in the range of the words is what its word stands for. -/
theorem toInt_ofInt {width : Nat} {value : Int} (least : -(count width : Int) ≤ value * 2)
    (most : value * 2 < count width) : toInt width (ofInt width value) = value := by
  have positive : (0 : Int) < count width := Int.natCast_pos.mpr (count_pos width)
  have isWord : ((ofInt width value : Nat) : Int) = value % (count width : Int) := by
    rw [ofInt]
    exact Int.toNat_of_nonneg (Int.emod_nonneg value (Int.ne_of_gt positive))
  rw [toInt, isWord, Int.emod_bmod]
  exact Int.bmod_eq_of_le_mul_two least most

end Word

namespace Packed

/-! ## Headers -/

namespace Header

variable {width value : Nat} {rest : List UInt8}

theorem number?_bytes (fits : value < Word.count width) (make : Nat → Header)
    (rest : List UInt8) :
    number? width make (Word.bytes width value ++ rest) = some (make value, rest) := by
  rw [number?, Word.read?_bytes width fits]
  rfl

theorem unsigned?_bytes {value : UInt64} (fits : value.toNat < Word.count width)
    (rest : List UInt8) :
    number? width (fun value => .unsigned (UInt64.ofNat value))
      (Word.bytes width value.toNat ++ rest) = some (.unsigned value, rest) := by
  rw [number?_bytes fits, UInt64.ofNat_toNat]

theorem integer?_bytes {value : Int64} (least : -(Word.count width : Int) ≤ value.toInt * 2)
    (most : value.toInt * 2 < Word.count width) (rest : List UInt8) :
    integer? width (Word.bytes width (Word.ofInt width value.toInt) ++ rest) =
      some (.signed value, rest) := by
  rw [integer?, number?_bytes (Word.ofInt_lt width _), Word.toInt_ofInt least most,
    Int64.ofInt_toInt]

theorem extension?_bytes (fits : value < Word.count width) (kind : UInt8) (rest : List UInt8) :
    extension? width (Word.bytes width value ++ (kind :: rest)) =
      some (.extension kind value, rest) := by
  rw [extension?, Word.read?_bytes width fits]
  rfl

/-- A length that is not longer than four bytes tell. -/
def fits : Header → Bool
  | .text length | .binary length | .extension _ length | .array length | .map length =>
      length < Word.count 4
  | _ => true

theorem read?_unsigned (value : UInt64) (rest : List UInt8) :
    read? ((Header.unsigned value).bytes ++ rest) = some (.unsigned value, rest) := by
  have bound : value.toNat < 0x10000000000000000 := value.toNat_lt
  simp only [bytes]
  split
  · rename_i small
    have marker : (UInt8.ofNat value.toNat).toNat = value.toNat :=
      UInt8.toNat_ofNat_of_lt' (Nat.lt_trans small (by decide))
    rw [List.cons_append, List.nil_append, read?]
    simp only [marker, small, if_true, UInt64.ofNat_toNat]
  · split
    · rename_i fits
      exact unsigned?_bytes fits rest
    · split
      · rename_i fits
        exact unsigned?_bytes fits rest
      · split
        · rename_i fits
          exact unsigned?_bytes fits rest
        · exact unsigned?_bytes bound rest

theorem read?_signed (value : Int64) (rest : List UInt8) :
    read? ((Header.signed value).bytes ++ rest) = some (.signed value, rest) := by
  have least : -0x8000000000000000 ≤ value.toInt := value.le_toInt
  have most : value.toInt < 0x8000000000000000 := value.toInt_lt
  have counts : (Word.count 1 : Int) = 0x100 ∧ (Word.count 2 : Int) = 0x10000 ∧
      (Word.count 4 : Int) = 0x100000000 ∧ (Word.count 8 : Int) = 0x10000000000000000 := by
    decide
  obtain ⟨one, two, four, eight⟩ := counts
  simp only [bytes]
  split
  · rename_i small
    have word : Word.ofInt 1 value.toInt = (value.toInt + 0x100).toNat := by
      rw [Word.ofInt, one]
      omega
    have marker : (UInt8.ofNat (Word.ofInt 1 value.toInt)).toNat = Word.ofInt 1 value.toInt :=
      UInt8.toNat_ofNat_of_lt' (Word.ofInt_lt 1 value.toInt)
    have high : 0xe0 ≤ Word.ofInt 1 value.toInt := by omega
    change read? (UInt8.ofNat (Word.ofInt 1 value.toInt) :: rest) = _
    simp only [read?, marker]
    rw [if_neg (by omega), if_neg (by omega), if_neg (by omega), if_neg (by omega),
      if_neg (by omega), Word.toInt_ofInt (by omega) (by omega), Int64.ofInt_toInt]
  · split
    · exact integer?_bytes (by omega) (by omega) rest
    · split
      · exact integer?_bytes (by omega) (by omega) rest
      · split
        · exact integer?_bytes (by omega) (by omega) rest
        · exact integer?_bytes (by omega) (by omega) rest

/-- A header is read back from its bytes. -/
theorem read?_bytes (header : Header) (fits : header.fits) (rest : List UInt8) :
    read? (header.bytes ++ rest) = some (header, rest) := by
  cases header with
  | null => rfl
  | bool value => cases value <;> rfl
  | unsigned value => exact read?_unsigned value rest
  | signed value => exact read?_signed value rest
  | single bits =>
      have bound : bits.toNat < Word.count 4 := bits.toNat_lt
      have reads := number?_bytes bound (fun bits => .single (UInt32.ofNat bits)) rest
      rw [UInt32.ofNat_toNat] at reads
      exact reads
  | double bits =>
      have bound : bits.toNat < Word.count 8 := bits.toNat_lt
      have reads := number?_bytes bound (fun bits => .double (UInt64.ofNat bits)) rest
      rw [UInt64.ofNat_toNat] at reads
      exact reads
  | text length =>
      simp only [bytes]
      split
      · rename_i short
        have marker : (0xa0 + UInt8.ofNat length).toNat = 0xa0 + length := by
          rw [UInt8.toNat_add, UInt8.toNat_ofNat_of_lt' (Nat.lt_trans short (by decide))]
          change (0xa0 + length) % 256 = _
          omega
        simp only [List.cons_append, List.nil_append, read?, marker]
        rw [if_neg (by omega), if_neg (by omega), if_neg (by omega), if_pos (by omega),
          Nat.add_sub_cancel_left]
      · simp only [length8]
        split
        · rename_i short
          exact number?_bytes short .text rest
        · split
          · rename_i short
            exact number?_bytes short .text rest
          · exact number?_bytes (of_decide_eq_true fits) .text rest
  | binary length =>
      simp only [bytes, length8]
      split
      · rename_i short
        exact number?_bytes short .binary rest
      · split
        · rename_i short
          exact number?_bytes short .binary rest
        · exact number?_bytes (of_decide_eq_true fits) .binary rest
  | extension kind length =>
      simp only [bytes, length8, List.append_assoc]
      split
      · rename_i short
        exact extension?_bytes short kind rest
      · split
        · rename_i short
          exact extension?_bytes short kind rest
        · exact extension?_bytes (of_decide_eq_true fits) kind rest
  | array count =>
      simp only [bytes]
      split
      · rename_i short
        have marker : (0x90 + UInt8.ofNat count).toNat = 0x90 + count := by
          rw [UInt8.toNat_add, UInt8.toNat_ofNat_of_lt' (Nat.lt_trans short (by decide))]
          change (0x90 + count) % 256 = _
          omega
        simp only [List.cons_append, List.nil_append, read?, marker]
        rw [if_neg (by omega), if_neg (by omega), if_pos (by omega), Nat.add_sub_cancel_left]
      · simp only [length16]
        split
        · rename_i short
          exact number?_bytes short .array rest
        · exact number?_bytes (of_decide_eq_true fits) .array rest
  | map count =>
      simp only [bytes]
      split
      · rename_i short
        have marker : (0x80 + UInt8.ofNat count).toNat = 0x80 + count := by
          rw [UInt8.toNat_add, UInt8.toNat_ofNat_of_lt' (Nat.lt_trans short (by decide))]
          change (0x80 + count) % 256 = _
          omega
        simp only [List.cons_append, List.nil_append, read?, marker]
        rw [if_neg (by omega), if_pos (by omega), Nat.add_sub_cancel_left]
      · simp only [length16]
        split
        · rename_i short
          exact number?_bytes short .map rest
        · exact number?_bytes (of_decide_eq_true fits) .map rest

end Header

/-! ## Values -/

/-! Every text, list and map inside is short enough for its header. -/

mutual
def isPackable : Packed → Bool
  | .text content => (Header.text content.length).fits
  | .binary content => (Header.binary content.length).fits
  | .extension kind content => (Header.extension kind content.length).fits
  | .array items => (Header.array items.length).fits && arePackable items
  | .map entries => (Header.map entries.length).fits && entriesPackable entries
  | _ => true

def arePackable : List Packed → Bool
  | [] => true
  | item :: rest => item.isPackable && arePackable rest

def entriesPackable : List (Packed × Packed) → Bool
  | [] => true
  | (key, value) :: rest => key.isPackable && value.isPackable && entriesPackable rest
end

theorem Header.bytes_length_pos (header : Header) : 0 < header.bytes.length := by
  have sized (marker : UInt8) (width value : Nat) : 0 < (sized marker width value).length :=
    Nat.succ_pos _
  have length8 (marker : UInt8) (length : Nat) : 0 < (length8 marker length).length := by
    rw [Header.length8]
    split
    · exact sized ..
    · split <;> exact sized ..
  have length16 (marker : UInt8) (length : Nat) : 0 < (length16 marker length).length := by
    rw [Header.length16]
    split <;> exact sized ..
  cases header with
  | null | bool => exact Nat.one_pos
  | single | double => exact sized ..
  | unsigned value =>
      simp only [bytes]
      repeat' split
      all_goals first | exact sized .. | exact Nat.one_pos
  | signed value =>
      simp only [bytes]
      repeat' split
      all_goals first | exact sized .. | exact Nat.one_pos
  | text length =>
      simp only [bytes]
      split
      · exact Nat.one_pos
      · exact length8 ..
  | binary length => exact length8 ..
  | extension kind length =>
      rw [bytes, List.length_append]
      exact Nat.add_pos_right _ Nat.one_pos
  | array count | map count =>
      simp only [bytes]
      split
      · exact Nat.one_pos
      · exact length16 ..

/-! A value takes a byte for each level of its nesting. -/

mutual
theorem nesting_le_length (packed : Packed) : packed.nesting ≤ packed.bytes.length := by
  cases packed with
  | array items =>
      have inside := nestingOfItems_le_length items
      have header := (Header.array items.length).bytes_length_pos
      rw [nesting, bytes, List.length_append]
      omega
  | map entries =>
      have inside := nestingOfEntries_le_length entries
      have header := (Header.map entries.length).bytes_length_pos
      rw [nesting, bytes, List.length_append]
      omega
  | extension kind content =>
      have header := (Header.extension kind content.length).bytes_length_pos
      rw [nesting, bytes, List.length_append]
      omega
  | _ => exact Nat.zero_le _

theorem nestingOfItems_le_length (items : List Packed) :
    nestingOfItems items ≤ (bytesOfItems items).length := by
  cases items with
  | nil => exact Nat.zero_le _
  | cons item rest =>
      have first := nesting_le_length item
      have others := nestingOfItems_le_length rest
      rw [nestingOfItems, bytesOfItems, List.length_append]
      omega

theorem nestingOfEntries_le_length (entries : List (Packed × Packed)) :
    nestingOfEntries entries ≤ (bytesOfEntries entries).length := by
  cases entries with
  | nil => exact Nat.zero_le _
  | cons entry rest =>
      obtain ⟨key, value⟩ := entry
      have left := nesting_le_length key
      have right := nesting_le_length value
      have others := nestingOfEntries_le_length rest
      rw [nestingOfEntries, bytesOfEntries, List.length_append, List.length_append]
      omega
end

theorem Reader.content_append (content rest : List UInt8) :
    Reader.content content.length (content ++ rest) = some (content, rest) := by
  induction content with
  | nil => rfl
  | cons byte content induction =>
      rw [List.length_cons, List.cons_append, Reader.content, induction]
      rfl

mutual
/-- A value is read back from its bytes where there are levels enough for it. -/
theorem read?_append (packed : Packed) (packable : packed.isPackable) (levels : Nat)
    (shallow : packed.nesting ≤ levels) (rest : List UInt8) :
    read? (levels + 1) (packed.bytes ++ rest) = some (packed, rest) := by
  cases packed with
  | null => simp only [read?, bytes, Header.read?_bytes .null rfl]; rfl
  | bool value => simp only [read?, bytes, Header.read?_bytes (.bool value) rfl]; rfl
  | unsigned value => simp only [read?, bytes, Header.read?_bytes (.unsigned value) rfl]; rfl
  | signed value => simp only [read?, bytes, Header.read?_bytes (.signed value) rfl]; rfl
  | single bits => simp only [read?, bytes, Header.read?_bytes (.single bits) rfl]; rfl
  | double bits => simp only [read?, bytes, Header.read?_bytes (.double bits) rfl]; rfl
  | text content =>
      simp only [read?, bytes, List.append_assoc,
        Header.read?_bytes (.text content.length) packable, Option.bind_eq_bind,
        Option.bind_some, Reader.map, Reader.content_append]
      rfl
  | binary content =>
      simp only [read?, bytes, List.append_assoc,
        Header.read?_bytes (.binary content.length) packable, Option.bind_eq_bind,
        Option.bind_some, Reader.map, Reader.content_append]
      rfl
  | extension kind content =>
      simp only [read?, bytes, List.append_assoc,
        Header.read?_bytes (.extension kind content.length) packable, Option.bind_eq_bind,
        Option.bind_some, Reader.map, Reader.content_append]
      rfl
  | array items =>
      obtain ⟨fits, packable⟩ := Bool.and_eq_true_iff.mp packable
      simp only [read?, bytes, List.append_assoc,
        Header.read?_bytes (.array items.length) fits, Option.bind_eq_bind,
        Option.bind_some, Reader.map, many_append items packable levels shallow]
      rfl
  | map entries =>
      obtain ⟨fits, packable⟩ := Bool.and_eq_true_iff.mp packable
      simp only [read?, bytes, List.append_assoc,
        Header.read?_bytes (.map entries.length) fits, Option.bind_eq_bind,
        Option.bind_some, Reader.map, manyEntries_append entries packable levels shallow]
      rfl

theorem many_append (items : List Packed) (packable : arePackable items) (levels : Nat)
    (shallow : nestingOfItems items < levels) (rest : List UInt8) :
    Reader.many (read? levels) items.length (bytesOfItems items ++ rest) =
      some (items, rest) := by
  obtain ⟨levels, rfl⟩ := Nat.exists_eq_add_one_of_ne_zero (Nat.ne_zero_of_lt shallow)
  cases items with
  | nil => rfl
  | cons item others =>
      obtain ⟨first, packable⟩ := Bool.and_eq_true_iff.mp packable
      rw [nestingOfItems] at shallow
      simp only [bytesOfItems, List.append_assoc, List.length_cons, Reader.many,
        read?_append item first levels (by omega),
        many_append others packable (levels + 1) (by omega), Option.bind_eq_bind,
        Option.bind_some]
      rfl

theorem manyEntries_append (entries : List (Packed × Packed))
    (packable : entriesPackable entries) (levels : Nat)
    (shallow : nestingOfEntries entries < levels) (rest : List UInt8) :
    Reader.many (Reader.both (read? levels) (read? levels)) entries.length
      (bytesOfEntries entries ++ rest) = some (entries, rest) := by
  obtain ⟨levels, rfl⟩ := Nat.exists_eq_add_one_of_ne_zero (Nat.ne_zero_of_lt shallow)
  cases entries with
  | nil => rfl
  | cons entry others =>
      obtain ⟨key, value⟩ := entry
      obtain ⟨pair, packable⟩ := Bool.and_eq_true_iff.mp packable
      obtain ⟨left, right⟩ := Bool.and_eq_true_iff.mp pair
      rw [nestingOfEntries] at shallow
      have pair (after : List UInt8) :
          Reader.both (read? (levels + 1)) (read? (levels + 1))
            (key.bytes ++ (value.bytes ++ after)) = some ((key, value), after) := by
        simp only [Reader.both, read?_append key left levels (by omega),
          read?_append value right levels (by omega), Option.bind_eq_bind, Option.bind_some]
        rfl
      simp only [bytesOfEntries, List.append_assoc, List.length_cons, Reader.many, pair,
        manyEntries_append others packable (levels + 1) (by omega), Option.bind_eq_bind,
        Option.bind_some]
      rfl
end

/-- Bytes of a value are read as that value. -/
theorem ofBytes?_bytes {packed : Packed} (packable : packed.isPackable) :
    ofBytes? packed.bytes = some packed := by
  have reads := packed.read?_append packable packed.bytes.length packed.nesting_le_length []
  rw [List.append_nil] at reads
  rw [ofBytes?, reads]
  rfl

end Packed

end Adl
