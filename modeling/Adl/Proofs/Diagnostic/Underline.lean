import Adl.Diagnostic.Printer
import Adl.Proofs.Foundation.Lines

namespace Adl.Diagnostic

/-! Where the carets stand. A diagnostic shows the line on which its span starts, after a margin
with the number of the line, and carets on the line below. The margin is as wide as the number
needs, that of the carets is always the same, and one blank stands for each byte before the span.
So the first caret is below the first character of the span only where these happen to agree. -/

open Text SourceFile

variable {sources : SourceMap} {diagnostic : Diagnostic} {file : SourceFile}
  {above before after below shown : List Char} {character : Char} {span : Span}
  {number : Nat}

/-! ## Positions in lines -/

theorem not_mem_rdropWhile {line : List Char} (unbroken : '\n' ∉ line.dropLast) :
    '\n' ∉ line.rdropWhile isTerminator := by
  rcases List.eq_nil_or_concat line with rfl | ⟨start, last, rfl⟩
  · exact nofun
  · rw [List.concat_eq_append] at unbroken ⊢
    have early : '\n' ∉ start := by simpa using unbroken
    by_cases ends : isTerminator last = true
    · rw [List.rdropWhile_concat_pos _ _ _ ends]
      exact fun member => early ((List.rdropWhile_prefix isTerminator start).subset member)
    · rw [List.rdropWhile_concat_neg _ _ _ ends]
      refine fun member => (List.mem_append.mp member).elim early fun late => ends ?_
      rw [← List.mem_singleton.mp late]
      rfl

/-- The span of a diagnostic starts at a character of a line of a file. -/
structure StartsAt (sources : SourceMap) (span : Span) (file : SourceFile)
    (above before : List Char) (character : Char) (after below : List Char) : Prop where
  points : sources.file? span = some file
  lies : IsLineAt file.text.toList span.start.toNat above (before ++ character :: after) below
  starts : span.start.toNat = byteLength above + byteLength before

namespace StartsAt

theorem not_openEnd (startsAt : StartsAt sources span file above before character after below) :
    ¬IsOpenEnd file.text.toList span.start.toNat := by
  intro isOpenEnd
  have isEnd := isOpenEnd.isEnd
  have length := startsAt.lies.length
  have starts := startsAt.starts
  have positive := character.utf8Size_pos
  simp only [byteLength_append, byteLength] at length
  omega

theorem lineColumn? (startsAt : StartsAt sources span file above before character after below) :
    sources.lineColumn? span = some (above.count '\n' + 1, byteLength before + 1) := by
  have place := lineColumn?_eq startsAt.lies startsAt.not_openEnd
  rw [startsAt.starts, Nat.add_sub_cancel_left, ← startsAt.starts] at place
  rw [SourceMap.lineColumn?, startsAt.points]
  exact place

end StartsAt

/-! ## The two lines -/

/-- What stands before the text of a line. -/
def margin (number : Nat) : List Char :=
  List.replicate (3 - (toString number).length) ' ' ++ (toString number).toList ++ " | ".toList

/-- What stands below a line, with blanks for some bytes of it. -/
def underline (blanks carets : Nat) : List Char :=
  [' ', ' ', ' ', '|', ' '] ++ List.replicate blanks ' ' ++ List.replicate carets '^'

theorem length_margin (number : Nat) :
    (margin number).length = max 3 (toString number).length + 3 := by
  simp only [margin, List.length_append, List.length_replicate, String.length_toList]
  have : (" | " : String).length = 3 := rfl
  omega

theorem not_mem_margin (number : Nat) : '\n' ∉ margin number := by
  have digits : '\n' ∉ Nat.toDigits 10 number := fun member =>
    nomatch Nat.isDigit_of_mem_toDigits (by decide) (by decide) member
  simpa [margin] using digits

theorem length_underline (blanks carets : Nat) :
    (underline blanks carets).length = 5 + blanks + carets := by
  simp only [underline, List.length_append, List.length_replicate]
  rfl

theorem not_mem_underline (blanks carets : Nat) : '\n' ∉ underline blanks carets := by
  simp [underline]

theorem idxOf_underline (blanks : Nat) {carets : Nat} (some : 0 < carets) :
    (underline blanks carets).idxOf '^' = 5 + blanks := by
  obtain ⟨carets, rfl⟩ := Nat.exists_eq_add_one.mpr some
  rw [underline, List.idxOf_append_of_notMem (by simp), List.replicate_succ, List.idxOf_cons_self]
  simp only [List.length_append, List.length_replicate]
  rfl

theorem count_underline (blanks carets : Nat) : (underline blanks carets).count '^' = carets := by
  simp [underline, List.count_append, List.count_replicate]

theorem quotedLine_toList (span : Span) (number column : Nat) (shown : List Char) :
    (quotedLine span number column shown).toList =
      "   |\n".toList ++ (margin number ++ shown ++ '\n' ::
        (underline (column - 1) (caretCount span shown column) ++ ['\n'])) := by
  have unfolded : quotedLine span number column shown = "   |\n" ++
      (String.ofList (List.replicate (3 - (toString number).length) ' ') ++ toString number) ++
        " | " ++ String.ofList shown ++ "\n" ++ "   | " ++
        String.ofList (List.replicate (column - 1) ' ') ++
        String.ofList (List.replicate (caretCount span shown column) '^') ++ "\n" := rfl
  rw [unfolded]
  simp [margin, underline]

theorem exists_location {column : Nat} (points : sources.file? span = some file)
    (place : sources.lineColumn? span = some (number, column))
    (text : file.lineText? number = some shown) :
    ∃ place : String, location sources span =
      "  --> " ++ place ++ "\n" ++ quotedLine span number column shown := by
  refine ⟨file.path.text ++ ":" ++ toString number ++ ":" ++ toString column, ?_⟩
  rw [location, points, place]
  dsimp only
  rw [text]
  rfl

/-- A diagnostic shows a line and what underlines it, below the place of its span. -/
def Quotes (sources : SourceMap) (diagnostic : Diagnostic) (quoted underline : List Char) : Prop :=
  '\n' ∉ quoted ∧ '\n' ∉ underline ∧ ∃ place : String,
    (diagnostic.text sources).toList =
      (diagnostic.headline ++ "\n  --> " ++ place ++ "\n   |\n").toList ++
        (quoted ++ '\n' :: (underline ++ '\n' ::
          (String.join (diagnostic.labels.map (labelText sources)) ++
            String.join (diagnostic.notes.map noteText)).toList))

theorem quotes_of_startsAt
    (startsAt : StartsAt sources diagnostic.span file above before character after below)
    (isShown : (before ++ character :: after).rdropWhile isTerminator = shown) :
    Quotes sources diagnostic (margin (above.count '\n' + 1) ++ shown)
      (underline (byteLength before)
        (caretCount diagnostic.span shown (byteLength before + 1))) := by
  have text := lineText?_eq startsAt.lies startsAt.not_openEnd (by simp)
  have unbroken := not_mem_rdropWhile startsAt.lies.unbroken
  rw [isShown] at text unbroken
  refine ⟨?_, not_mem_underline _ _, ?_⟩
  · exact fun member => (List.mem_append.mp member).elim (not_mem_margin _) unbroken
  · obtain ⟨place, isLocation⟩ := exists_location startsAt.points startsAt.lineColumn? text
    refine ⟨place, ?_⟩
    have arrow : "\n  --> ".toList = "\n".toList ++ "  --> ".toList := rfl
    have gutter : "\n   |\n".toList = "\n".toList ++ "   |\n".toList := rfl
    rw [Diagnostic.text, isLocation]
    simp only [String.toList_append, quotedLine_toList, arrow, gutter, List.append_assoc,
      List.cons_append, List.nil_append, Nat.add_sub_cancel]

/-! ## Alignment -/

/-- The diagnostic underlines what its span starts with: the first caret is below its first
character, and there is one caret only or none of them is beyond the end of the line above. The
line is shown after a margin of as many characters as given. -/
structure Underlines (margin : Nat) (before shown underline : List Char) : Prop where
  aligned : underline.idxOf '^' = margin + before.length
  within : underline.count '^' = 1 ∨ underline.length ≤ margin + shown.length

theorem underlines_underline_iff {blanks carets : Nat} (some : 0 < carets) :
    Underlines (margin number).length before shown (underline blanks carets) ↔
      blanks + 2 = before.length + max 3 (toString number).length ∧
        (carets = 1 ∨ before.length + carets ≤ shown.length) := by
  constructor
  · rintro ⟨aligned, within⟩
    rw [idxOf_underline _ some, length_margin] at aligned
    rw [count_underline, length_underline, length_margin] at within
    omega
  · rintro ⟨agrees, within⟩
    constructor
    · rw [idxOf_underline _ some, length_margin]
      omega
    · rw [count_underline, length_underline, length_margin]
      omega

/-- The carets are below what the span starts with only where the bytes before it exceed the
characters by as much as the margin of the line exceeds theirs: by one, if the number of the line
has three digits or fewer. So they are not where each character is one byte. -/
theorem underlines_iff (sources : SourceMap) (diagnostic : Diagnostic) (file : SourceFile)
    (above before after below : List Char) (character : Char)
    (startsAt : StartsAt sources diagnostic.span file above before character after below) :
    let number := above.count '\n' + 1
    let shown := (before ++ character :: after).rdropWhile isTerminator
    let carets := caretCount diagnostic.span shown (byteLength before + 1)
    ∃ quoted underline, Quotes sources diagnostic quoted underline ∧
      quoted.drop (margin number).length = shown ∧
      (Underlines (margin number).length before shown underline ↔
        byteLength before + 2 = before.length + max 3 (toString number).length ∧
          (carets = 1 ∨ before.length + carets ≤ shown.length)) :=
  ⟨_, _, quotes_of_startsAt startsAt rfl, List.drop_left,
    underlines_underline_iff (Nat.lt_of_lt_of_le Nat.zero_lt_one (Nat.le_max_right _ 1))⟩

/-- A file with one line of text. -/
def oneLine (text : String) : SourceMap :=
  ⟨#[⟨⟨"a.adl"⟩, text, false⟩]⟩

/-- The last name of a line. -/
def unexpected (start stop : UInt32) : Diagnostic :=
  .error .syntaxError ⟨0, start, stop, 1⟩ "unexpected name"

/-- A character of two bytes makes up for the margin. -/
theorem accented_underlined :
    ∃ quoted underline, Quotes (oneLine "type é.A") (unexpected 8 9) quoted underline ∧
      quoted.drop 6 = "type é.A".toList ∧
      Underlines 6 "type é.".toList "type é.A".toList underline := by
  have startsAt : StartsAt (oneLine "type é.A") (unexpected 8 9).span
      ⟨⟨"a.adl"⟩, "type é.A", false⟩ [] "type é.".toList 'A' [] [] :=
    ⟨rfl, ⟨by decide +kernel, .inl rfl, by decide +kernel, .inl rfl, by decide +kernel,
      .inl (by decide +kernel)⟩, by decide +kernel⟩
  obtain ⟨quoted, underline, quotes, isShown, underlines⟩ :=
    underlines_iff _ _ _ _ _ _ _ _ startsAt
  exact ⟨quoted, underline, quotes, isShown, underlines.mpr (by decide +kernel)⟩

/-- Where each character is one byte, the carets are one blank too far to the left. -/
theorem plain_underlined_beside :
    StartsAt (oneLine "type a.A") (unexpected 5 8).span ⟨⟨"a.adl"⟩, "type a.A", false⟩
        [] "type ".toList 'a' ".A".toList [] ∧
      (unexpected 5 8).text (oneLine "type a.A") =
        "error: syntax error: unexpected name\n  --> a.adl:1:6\n" ++
          "   |\n" ++
          "  1 | type a.A\n" ++
          "   |      ^^^\n" ∧
      "  1 | type a.A".toList.drop 6 = "type a.A".toList ∧
      ¬Underlines 6 "type ".toList "type a.A".toList "   |      ^^^".toList :=
  ⟨⟨rfl, ⟨by decide +kernel, .inl rfl, by decide +kernel, .inl rfl, by decide +kernel,
      .inl (by decide +kernel)⟩, by decide +kernel⟩,
    by decide +kernel, by decide +kernel,
    fun underlines => absurd underlines.aligned (by decide +kernel)⟩

end Adl.Diagnostic
