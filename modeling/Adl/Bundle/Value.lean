import Adl.Bundle.Record
import Adl.Definition.Value
import Adl.Foundation.MemberSet
import Adl.Foundation.Span

namespace Adl

/-! The packed forms of spans, member sets and parameter values. -/

namespace Span

def packed (span : Span) : Packed :=
  .ofFields
    [ ("file_id", .unsigned span.file.toUInt64),
      ("start", .unsigned span.start.toUInt64),
      ("end", .unsigned span.stop.toUInt64),
      ("start_line", .unsigned span.line.toUInt64) ]

def fieldNames : List String := ["file_id", "start", "end", "start_line"]

/-- A span has nothing but numbers, so that its fields may also come as one byte each.
Bytes after them are not looked at. -/
def ofBytes? : List UInt8 → Option Span
  | file :: start :: stop :: line :: _ =>
      some ⟨file.toUInt16, start.toUInt32, stop.toUInt32, line.toUInt16⟩
  | _ => none

def ofPacked? : Nat → Packed → Option Span
  | _, .binary bytes => ofBytes? bytes
  | 0, _ => none
  | room + 1, packed => do
      let record ← Record.ofPacked? fieldNames room packed
      let file ← record.field? "file_id" Packed.uint16?
      let start ← record.field? "start" Packed.uint32?
      let stop ← record.field? "end" Packed.uint32?
      let line ← record.field? "start_line" Packed.uint16?
      return { file, start, stop, line }

end Span

namespace MemberSet

variable {α : Type}

def packed (set : MemberSet α) : Packed :=
  .unsigned set.bits.toUInt64

/-- Bits at which no member stands are kept. -/
def ofPacked? (packed : Packed) : Option (MemberSet α) :=
  packed.uint16?.map (⟨·⟩)

end MemberSet

namespace Value

def packed : Value → Packed
  | .string text => .ofVariant "String" (.ofString text)
  | .number value => .ofVariant "Number" (.ofInt64 value)
  | .reference parameter => .ofVariant "Reference" (.ofString parameter)
  | .null => .ofString "Null"

def variantNames : List String := ["String", "Number", "Reference", "Null"]

def ofPacked? (packed : Packed) : Option Value := do
  match ← packed.variant? variantNames with
  | ("String", some contents) => return .string (← contents.string?)
  | ("Number", some contents) => return .number (← contents.int64?)
  | ("Reference", some contents) => return .reference (← contents.string?)
  | ("Null", none) | ("Null", some .null) => return .null
  | _ => none

end Value

end Adl
