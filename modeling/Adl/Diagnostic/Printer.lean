import Adl.Diagnostic.Basic
import Adl.Foundation.SourceMap

namespace Adl.Diagnostic

/-! Diagnostics with the source line that they point at, underlined by carets. -/

private def alignedRight (width : Nat) (text : String) : String :=
  String.ofList (List.replicate (width - text.length) ' ') ++ text

private def position (path : SourcePath) (line column : Nat) : String :=
  path.text ++ ":" ++ toString line ++ ":" ++ toString column

/-- The number of carets: as many as the span has bytes on the line, at least one. -/
def caretCount (span : Span) (line : List Char) (column : Nat) : Nat :=
  max (min span.length (Text.byteLength line - (column - 1))) 1

def quotedLine (span : Span) (line column : Nat) (text : List Char) : String :=
  "   |\n" ++
    alignedRight 3 (toString line) ++ " | " ++ String.ofList text ++ "\n" ++
    "   | " ++ String.ofList (List.replicate (column - 1) ' ') ++
    String.ofList (List.replicate (caretCount span text column) '^') ++ "\n"

def location (sources : SourceMap) (span : Span) : String :=
  match sources.file? span, sources.lineColumn? span with
  | some file, some (line, column) =>
      "  --> " ++ position file.path line column ++ "\n" ++
        match file.lineText? line with
        | some text => quotedLine span line column text
        | none => ""
  | _, _ => "  --> <generated>\n"

def labelText (sources : SourceMap) (label : Label) : String :=
  "   = note: " ++ label.message ++ "\n" ++
    match sources.file? label.span, sources.lineColumn? label.span with
    | some file, some (line, column) =>
        "     at " ++ position file.path line column ++ "\n"
    | _, _ => ""

def noteText (note : String) : String :=
  "   = help: " ++ note ++ "\n"

def text (sources : SourceMap) (diagnostic : Diagnostic) : String :=
  diagnostic.headline ++ "\n" ++
    location sources diagnostic.span ++
    String.join (diagnostic.labels.map (labelText sources)) ++
    String.join (diagnostic.notes.map noteText)

/-- A blank line stands between two diagnostics. -/
def listText (sources : SourceMap) (diagnostics : List Diagnostic) : String :=
  "\n".intercalate (diagnostics.map (text sources))

end Adl.Diagnostic
