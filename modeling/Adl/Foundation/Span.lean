namespace Adl

/-! Source locations. A span is a byte range of a file with the line on which it
starts; elements that were made in memory carry a span of the reserved file. -/

structure Span where
  file : UInt16
  start : UInt32
  stop : UInt32
  line : UInt16
deriving DecidableEq, Repr

namespace Span

/-- The file number that no file bears. -/
def generatedFile : UInt16 := 65535

def generated : Span := ⟨generatedFile, 0, 0, 0⟩

instance : Inhabited Span := ⟨generated⟩

/-- Only the file number decides: the other numbers of such a span are free. -/
def isGenerated (span : Span) : Bool :=
  span.file == generatedFile

def isEmpty (span : Span) : Bool :=
  span.start == span.stop

/-- The number of bytes, zero where the end comes before the start. -/
def length (span : Span) : Nat :=
  span.stop.toNat - span.start.toNat

def relocated (span : Span) (file : UInt16) : Span :=
  { span with file }

/-- `other` where this span was made in memory. -/
def orElse (span other : Span) : Span :=
  if span.isGenerated then other else span

end Span

end Adl
