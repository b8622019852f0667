import Adl.Foundation.Bytes
import Adl.Foundation.SourcePath
import Adl.Foundation.Span

namespace Adl

/-! The files seen by a compilation, and the way from byte offsets to lines and
columns. The line starts of a file end with the length of its text, unless that
length is already the start of a last, empty line. -/

structure SourceFile where
  path : SourcePath
  text : String
  /-- Whether the file was made to show a generated text. Its path is for display and
  is not the path of any other file, however it is spelled. -/
  isDump : Bool
deriving Repr, Inhabited

namespace SourceFile

/-- The offsets that follow a line break, counted from `offset`. -/
def startsAfterBreaks (offset : Nat) : List Char → List Nat
  | [] => []
  | character :: rest =>
      let next := offset + character.utf8Size
      if character = '\n' then
        next :: startsAfterBreaks next rest
      else
        startsAfterBreaks next rest

def lineStarts (file : SourceFile) : List Nat :=
  let characters := file.text.toList
  let starts := 0 :: startsAfterBreaks 0 characters
  let size := Text.byteLength characters
  if starts.getLast? = some size then starts else starts ++ [size]

/-- Line and column of an offset, both counted from one. -/
def lineColumn? (file : SourceFile) (offset : Nat) : Option (Nat × Nat) :=
  if offset ≤ Text.byteLength file.text.toList then
    let before := file.lineStarts.filter (· ≤ offset)
    some (before.length, offset - before.getLast?.getD 0 + 1)
  else
    none

private def withoutTerminator (line : List Char) : List Char :=
  (line.reverse.dropWhile fun character =>
    character == '\n' || character == '\r').reverse

/-- The text of a line, without the line terminators at its end. -/
def lineText? (file : SourceFile) (line : Nat) : Option (List Char) :=
  match line with
  | 0 => none
  | index + 1 => do
      let start ← file.lineStarts[index]?
      let stop ← file.lineStarts[index + 1]?
      let text ← Text.slice? file.text.toList start stop
      return withoutTerminator text

def lineCount (file : SourceFile) : Nat :=
  file.lineStarts.length - 1

end SourceFile

structure SourceMap where
  files : Array SourceFile
deriving Repr, Inhabited

namespace SourceMap

def empty : SourceMap := ⟨#[]⟩

/-- Stores a file under the next number. A full map stores nothing and gives the
reserved number. -/
def push (sources : SourceMap) (file : SourceFile) : UInt16 × SourceMap :=
  let index := sources.files.size
  if index < Span.generatedFile.toNat then
    (UInt16.ofNat index, ⟨sources.files.push file⟩)
  else
    (Span.generatedFile, sources)

/-- Stores a file and gives its number. A file with the same path and text keeps
its number. -/
def add (sources : SourceMap) (path : SourcePath) (text : String) :
    UInt16 × SourceMap :=
  match sources.files.findIdx? fun file =>
      !file.isDump && file.path.isSame path && file.text == text with
  | some index => (UInt16.ofNat index, sources)
  | none => sources.push ⟨path, text, false⟩

/-- Stores a generated text as a file of its own, shown by its number. -/
def addDump (sources : SourceMap) (extension text : String) : UInt16 × SourceMap :=
  let path := "<dump " ++ toString sources.files.size ++ ">." ++ extension
  sources.push ⟨⟨path⟩, text, true⟩

/-- The files as they are shown. Of files that look the same the first is kept, and
those after it move up. -/
def shown (sources : SourceMap) : SourceMap :=
  sources.files.foldl (fun listed file => (listed.add file.path file.text).2) .empty

def find? (sources : SourceMap) (path : SourcePath) : Option Nat :=
  sources.files.findIdx? fun file => !file.isDump && file.path.isSame path

def file? (sources : SourceMap) (span : Span) : Option SourceFile :=
  if span.isGenerated then none else sources.files[span.file.toNat]?

def snippet? (sources : SourceMap) (span : Span) : Option String := do
  let file ← sources.file? span
  let text ← Text.slice? file.text.toList span.start.toNat span.stop.toNat
  return String.ofList text

def lineColumn? (sources : SourceMap) (span : Span) : Option (Nat × Nat) := do
  (← sources.file? span).lineColumn? span.start.toNat

end SourceMap

/-! A final line break opens a last line that holds nothing. -/

example : SourceFile.lineStarts ⟨⟨"f"⟩, "a\nbc\nd", false⟩ = [0, 2, 5, 6] := by decide +kernel
example : SourceFile.lineStarts ⟨⟨"f"⟩, "a\nbc\n", false⟩ = [0, 2, 5] := by decide +kernel
example : SourceFile.lineStarts ⟨⟨"f"⟩, "", false⟩ = [0] := by decide +kernel

end Adl
