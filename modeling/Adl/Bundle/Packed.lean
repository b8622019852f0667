namespace Adl

/-! Packed values: a binary notation in which every value starts with a header byte
that says what it is and, for small values, how long it is or what its value is. -/

inductive Packed where
  | null
  | bool (value : Bool)
  | unsigned (value : UInt64)
  | signed (value : Int64)
  | single (bits : UInt32)
  | double (bits : UInt64)
  /-- Text need not be well-formed UTF-8 where nobody reads it. -/
  | text (bytes : List UInt8)
  | binary (bytes : List UInt8)
  | extension (kind : UInt8) (bytes : List UInt8)
  | array (items : List Packed)
  | map (entries : List (Packed × Packed))

namespace Packed

instance : Inhabited Packed := ⟨.null⟩

def ofString (text : String) : Packed :=
  .text text.toUTF8.data.toList

/-- An integer without a sign unless it is negative. -/
def ofInt64 (value : Int64) : Packed :=
  if value < 0 then .signed value else .unsigned value.toUInt64

def ofOption {α : Type} (pack : α → Packed) : Option α → Packed
  | some value => pack value
  | none => .null

def ofList {α : Type} (pack : α → Packed) (items : List α) : Packed :=
  .array (items.map pack)

/-- A structure is a map from the names of its fields. -/
def ofFields (fields : List (String × Packed)) : Packed :=
  .map (fields.map fun (name, value) => (ofString name, value))

/-- An alternative with its contents is a map of one entry. -/
def ofVariant (name : String) (contents : Packed) : Packed :=
  .map [(ofString name, contents)]

/-! How many arrays, maps and extensions are inside each other. -/

mutual
def nesting : Packed → Nat
  | .array items => nestingOfItems items + 1
  | .map entries => nestingOfEntries entries + 1
  | .extension _ _ => 1
  | _ => 0

def nestingOfItems : List Packed → Nat
  | [] => 0
  | item :: rest => max item.nesting (nestingOfItems rest)

def nestingOfEntries : List (Packed × Packed) → Nat
  | [] => 0
  | (key, value) :: rest => max (max key.nesting value.nesting) (nestingOfEntries rest)
end

end Packed

/-! ## Words

Numbers of a fixed number of bytes, the highest byte first. -/

namespace Word

def bytes : Nat → Nat → List UInt8
  | 0, _ => []
  | width + 1, value => bytes width (value / 256) ++ [UInt8.ofNat value]

/-- Reads the low bytes of a number of which the high ones are known. -/
def readAfter? (high : Nat) : Nat → List UInt8 → Option (Nat × List UInt8)
  | 0, rest => some (high, rest)
  | _ + 1, [] => none
  | width + 1, byte :: rest => readAfter? (high * 256 + byte.toNat) width rest

def read? : Nat → List UInt8 → Option (Nat × List UInt8) :=
  readAfter? 0

/-- How many words there are of so many bytes. -/
def count : Nat → Nat
  | 0 => 1
  | width + 1 => 256 * count width

/-- A number below zero stands at as much below the end of the words. -/
def ofInt (width : Nat) (value : Int) : Nat :=
  (value % (count width : Int)).toNat

/-- The upper half of the words are the numbers below zero. -/
def toInt (width : Nat) (word : Nat) : Int :=
  (word : Int).bmod (count width)

end Word

/-! ## Headers -/

namespace Packed

/-- What the first bytes of a value tell: a value without contents, or the kind and
the size of the contents that follow. -/
inductive Header where
  | null
  | bool (value : Bool)
  | unsigned (value : UInt64)
  | signed (value : Int64)
  | single (bits : UInt32)
  | double (bits : UInt64)
  | text (length : Nat)
  | binary (length : Nat)
  | extension (kind : UInt8) (length : Nat)
  | array (count : Nat)
  | map (count : Nat)
deriving DecidableEq

namespace Header

/-- A marker with a number of `width` bytes. -/
def sized (marker : UInt8) (width value : Nat) : List UInt8 :=
  marker :: Word.bytes width value

/-- A length after the marker that says how many bytes it takes. -/
def length8 (marker : UInt8) (length : Nat) : List UInt8 :=
  if length < 0x100 then sized marker 1 length
  else if length < 0x10000 then sized (marker + 1) 2 length
  else sized (marker + 2) 4 length

def length16 (marker : UInt8) (length : Nat) : List UInt8 :=
  if length < 0x10000 then sized marker 2 length
  else sized (marker + 1) 4 length

/-- Every number and length takes the fewest bytes. -/
def bytes : Header → List UInt8
  | .null => [0xc0]
  | .bool value => [if value then 0xc3 else 0xc2]
  | .unsigned value =>
      let value := value.toNat
      if value < 0x80 then [UInt8.ofNat value]
      else if value < 0x100 then sized 0xcc 1 value
      else if value < 0x10000 then sized 0xcd 2 value
      else if value < 0x100000000 then sized 0xce 4 value
      else sized 0xcf 8 value
  | .signed value =>
      let value := value.toInt
      if -0x20 ≤ value ∧ value < 0 then Word.bytes 1 (Word.ofInt 1 value)
      else if -0x80 ≤ value ∧ value < 0x80 then sized 0xd0 1 (Word.ofInt 1 value)
      else if -0x8000 ≤ value ∧ value < 0x8000 then sized 0xd1 2 (Word.ofInt 2 value)
      else if -0x80000000 ≤ value ∧ value < 0x80000000 then
        sized 0xd2 4 (Word.ofInt 4 value)
      else sized 0xd3 8 (Word.ofInt 8 value)
  | .single bits => sized 0xca 4 bits.toNat
  | .double bits => sized 0xcb 8 bits.toNat
  | .text length =>
      if length < 0x20 then [0xa0 + UInt8.ofNat length] else length8 0xd9 length
  | .binary length => length8 0xc4 length
  | .extension kind length => length8 0xc7 length ++ [kind]
  | .array count =>
      if count < 0x10 then [0x90 + UInt8.ofNat count] else length16 0xdc count
  | .map count =>
      if count < 0x10 then [0x80 + UInt8.ofNat count] else length16 0xde count

def number? (width : Nat) (make : Nat → Header) (rest : List UInt8) :
    Option (Header × List UInt8) := do
  let (value, rest) ← Word.read? width rest
  return (make value, rest)

def integer? (width : Nat) (rest : List UInt8) : Option (Header × List UInt8) :=
  number? width (fun word => .signed (Int64.ofInt (Word.toInt width word))) rest

def ofKind? (length : Nat) : List UInt8 → Option (Header × List UInt8)
  | [] => none
  | kind :: rest => some (.extension kind length, rest)

def extension? (width : Nat) (rest : List UInt8) :
    Option (Header × List UInt8) := do
  let (length, rest) ← Word.read? width rest
  ofKind? length rest

/-- The headers from `0xc0` to `0xdf`. -/
def ofMarker? (marker : Nat) (rest : List UInt8) :
    Option (Header × List UInt8) :=
  match marker with
  | 0xc0 => some (.null, rest)
  | 0xc2 => some (.bool false, rest)
  | 0xc3 => some (.bool true, rest)
  | 0xc4 => number? 1 .binary rest
  | 0xc5 => number? 2 .binary rest
  | 0xc6 => number? 4 .binary rest
  | 0xc7 => extension? 1 rest
  | 0xc8 => extension? 2 rest
  | 0xc9 => extension? 4 rest
  | 0xca => number? 4 (fun bits => .single (UInt32.ofNat bits)) rest
  | 0xcb => number? 8 (fun bits => .double (UInt64.ofNat bits)) rest
  | 0xcc => number? 1 (fun value => .unsigned (UInt64.ofNat value)) rest
  | 0xcd => number? 2 (fun value => .unsigned (UInt64.ofNat value)) rest
  | 0xce => number? 4 (fun value => .unsigned (UInt64.ofNat value)) rest
  | 0xcf => number? 8 (fun value => .unsigned (UInt64.ofNat value)) rest
  | 0xd0 => integer? 1 rest
  | 0xd1 => integer? 2 rest
  | 0xd2 => integer? 4 rest
  | 0xd3 => integer? 8 rest
  | 0xd4 => ofKind? 1 rest
  | 0xd5 => ofKind? 2 rest
  | 0xd6 => ofKind? 4 rest
  | 0xd7 => ofKind? 8 rest
  | 0xd8 => ofKind? 16 rest
  | 0xd9 => number? 1 .text rest
  | 0xda => number? 2 .text rest
  | 0xdb => number? 4 .text rest
  | 0xdc => number? 2 .array rest
  | 0xdd => number? 4 .array rest
  | 0xde => number? 2 .map rest
  | 0xdf => number? 4 .map rest
  | _ => none

def read? : List UInt8 → Option (Header × List UInt8)
  | [] => none
  | byte :: rest =>
      let marker := byte.toNat
      if marker < 0x80 then some (.unsigned (UInt64.ofNat marker), rest)
      else if marker < 0x90 then some (.map (marker - 0x80), rest)
      else if marker < 0xa0 then some (.array (marker - 0x90), rest)
      else if marker < 0xc0 then some (.text (marker - 0xa0), rest)
      else if marker < 0xe0 then ofMarker? marker rest
      else some (.signed (Int64.ofInt (Word.toInt 1 marker)), rest)

end Header

/-! ## Values -/

mutual
def bytes : Packed → List UInt8
  | .null => Header.null.bytes
  | .bool value => (Header.bool value).bytes
  | .unsigned value => (Header.unsigned value).bytes
  | .signed value => (Header.signed value).bytes
  | .single bits => (Header.single bits).bytes
  | .double bits => (Header.double bits).bytes
  | .text content => (Header.text content.length).bytes ++ content
  | .binary content => (Header.binary content.length).bytes ++ content
  | .extension kind content => (Header.extension kind content.length).bytes ++ content
  | .array items => (Header.array items.length).bytes ++ bytesOfItems items
  | .map entries => (Header.map entries.length).bytes ++ bytesOfEntries entries

def bytesOfItems : List Packed → List UInt8
  | [] => []
  | item :: rest => item.bytes ++ bytesOfItems rest

def bytesOfEntries : List (Packed × Packed) → List UInt8
  | [] => []
  | (key, value) :: rest => key.bytes ++ value.bytes ++ bytesOfEntries rest
end

/-- A reader gives a value with the bytes that follow it. -/
abbrev Reader (α : Type) := List UInt8 → Option (α × List UInt8)

namespace Reader

variable {α β : Type}

def content : Nat → Reader (List UInt8)
  | 0, rest => some ([], rest)
  | _ + 1, [] => none
  | length + 1, byte :: rest => do
      let (content, rest) ← content length rest
      return (byte :: content, rest)

def many (read : Reader α) : Nat → Reader (List α)
  | 0, rest => some ([], rest)
  | count + 1, rest => do
      let (item, rest) ← read rest
      let (items, rest) ← many read count rest
      return (item :: items, rest)

def both (first : Reader α) (second : Reader β) : Reader (α × β) := fun rest => do
  let (left, rest) ← first rest
  let (right, rest) ← second rest
  return ((left, right), rest)

def map (make : α → β) (read : Reader α) : Reader β := fun rest => do
  let (value, rest) ← read rest
  return (make value, rest)

end Reader

/-- Reads one value whose parts are nested fewer levels deep than given. -/
def read? : Nat → Reader Packed
  | 0 => fun _ => none
  | levels + 1 => fun rest => do
      let (header, rest) ← Header.read? rest
      match header with
      | .null => return (.null, rest)
      | .bool value => return (.bool value, rest)
      | .unsigned value => return (.unsigned value, rest)
      | .signed value => return (.signed value, rest)
      | .single bits => return (.single bits, rest)
      | .double bits => return (.double bits, rest)
      | .text length => Reader.map .text (Reader.content length) rest
      | .binary length => Reader.map .binary (Reader.content length) rest
      | .extension kind length =>
          Reader.map (.extension kind) (Reader.content length) rest
      | .array count => Reader.map .array (Reader.many (read? levels) count) rest
      | .map count =>
          Reader.map .map
            (Reader.many (Reader.both (read? levels) (read? levels)) count) rest

/-- The value at the start of some bytes. Each level of nesting takes a byte at least. -/
def ofBytes? (bytes : List UInt8) : Option Packed :=
  (read? (bytes.length + 1) bytes).map (·.1)

example : (Packed.ofInt64 (-33)).bytes = [0xd0, 0xdf] := by decide +kernel
example : (Packed.unsigned 0x1234).bytes = [0xcd, 0x12, 0x34] := by decide +kernel

end Packed

end Adl
