import Adl.Foundation.SourceMap
import Mathlib.Data.List.DropRight

namespace Adl

/-! The places of offsets in a text. An offset lies on one line; its place is told by the line
breaks before it and by its distance from the start of that line. The table of line starts tells
it exactly, except at the end of a text whose last line is open: there the entry that closes the
table passes for the start of a line. -/

namespace Text

variable {text above line below characters : List Char} {offset : Nat}

/-- The UTF-8 form of a text. -/
def bytes (characters : List Char) : List UInt8 :=
  characters.flatMap String.utf8EncodeChar

/-! ## Bytes -/

theorem byteLength_append (first second : List Char) :
    byteLength (first ++ second) = byteLength first + byteLength second := by
  induction first with
  | nil => rw [List.nil_append, byteLength, Nat.zero_add]
  | cons character rest induction =>
      rw [List.cons_append, byteLength, byteLength, induction, Nat.add_assoc]

theorem byteLength_pos (holds : characters ≠ []) : 0 < byteLength characters := by
  cases characters with
  | nil => exact absurd rfl holds
  | cons character rest => exact Nat.add_pos_left character.utf8Size_pos _

theorem bytes_append (first second : List Char) :
    bytes (first ++ second) = bytes first ++ bytes second :=
  List.flatMap_append

theorem length_bytes (characters : List Char) :
    (bytes characters).length = byteLength characters := by
  induction characters with
  | nil => rfl
  | cons character rest induction =>
      rw [bytes, List.flatMap_cons, List.length_append, String.length_utf8EncodeChar]
      exact congrArg (character.utf8Size + ·) induction

/-- The byte of a line break stands for nothing else. -/
theorem eq_of_mem_utf8EncodeChar {character : Char}
    (member : 10 ∈ String.utf8EncodeChar character) : character = '\n' := by
  have bound : character.val.toNat < 1114112 := by
    rcases character.valid with low | ⟨-, high⟩
    · exact Nat.lt_trans low (by decide)
    · exact high
  have code : character.val.toNat = 10 := by
    unfold String.utf8EncodeChar at member
    dsimp only at member
    split_ifs at member <;>
      simp only [List.mem_cons, List.not_mem_nil, or_false, ← UInt8.toNat_inj, UInt8.toNat_ofNat',
        UInt8.toNat_ofNat] at member <;>
      omega
  exact Char.ext (UInt32.toNat_inj.mp code)

theorem count_utf8EncodeChar (character : Char) :
    (String.utf8EncodeChar character).count 10 = if character = '\n' then 1 else 0 := by
  split
  · rename_i isBreak
    exact isBreak ▸ rfl
  · rename_i other
    exact List.count_eq_zero.mpr fun member => other (eq_of_mem_utf8EncodeChar member)

theorem count_bytes (characters : List Char) :
    (bytes characters).count 10 = characters.count '\n' := by
  induction characters with
  | nil => rfl
  | cons character rest induction =>
      rw [bytes, List.flatMap_cons, List.count_append, count_utf8EncodeChar, List.count_cons,
        Nat.add_comm]
      simp only [beq_iff_eq]
      exact congrArg (· + _) induction

theorem not_mem_bytes (unbroken : '\n' ∉ characters) : (10 : UInt8) ∉ bytes characters := by
  rw [← List.count_eq_zero, count_bytes]
  exact List.count_eq_zero.mpr unbroken

/-! ## Slices -/

theorem dropBytes?_append (first second : List Char) :
    dropBytes? (byteLength first) (first ++ second) = some second := by
  induction first with
  | nil => rw [byteLength, dropBytes?, List.nil_append]
  | cons character rest induction =>
      have positive := character.utf8Size_pos
      obtain ⟨size, isSize⟩ := Nat.exists_eq_add_one.mpr
        (Nat.add_pos_left positive (byteLength rest))
      rw [byteLength, isSize, List.cons_append, dropBytes?, ← isSize,
        if_pos (Nat.le_add_right ..), Nat.add_sub_cancel_left, induction]

theorem takeBytes?_append (first second : List Char) :
    takeBytes? (byteLength first) (first ++ second) = some first := by
  induction first with
  | nil => rw [byteLength, takeBytes?]
  | cons character rest induction =>
      have positive := character.utf8Size_pos
      obtain ⟨size, isSize⟩ := Nat.exists_eq_add_one.mpr
        (Nat.add_pos_left positive (byteLength rest))
      rw [byteLength, isSize, List.cons_append, takeBytes?, ← isSize,
        if_pos (Nat.le_add_right ..), Nat.add_sub_cancel_left, induction]
      rfl

theorem slice?_append (above line below : List Char) :
    slice? (above ++ (line ++ below)) (byteLength above) (byteLength above + byteLength line) =
      some line := by
  rw [slice?, if_pos (Nat.le_add_right ..), dropBytes?_append, Nat.add_sub_cancel_left]
  exact takeBytes?_append line below

/-! ## Lines -/

/-- An offset lies on a line, which stands with the line break that ends it between what is above
and what is below. The end of a text lies on the last line, which no line break ends. -/
structure IsLineAt (text : List Char) (offset : Nat) (above line below : List Char) : Prop where
  whole : text = above ++ (line ++ below)
  opened : above = [] ∨ above.getLast? = some '\n'
  unbroken : '\n' ∉ line.dropLast
  closed : below = [] ∨ line.getLast? = some '\n'
  starts : byteLength above ≤ offset
  holds : offset < byteLength above + byteLength line ∨
    offset = byteLength text ∧ line.getLast? ≠ some '\n'

/-- The end of a text that stops without a line break. -/
structure IsOpenEnd (text : List Char) (offset : Nat) : Prop where
  isEnd : offset = byteLength text
  holds : text ≠ []
  isOpen : text.getLast? ≠ some '\n'

theorem not_mem_of_not_ended (unbroken : '\n' ∉ line.dropLast)
    (notEnded : line.getLast? ≠ some '\n') : '\n' ∉ line := by
  intro member
  cases ends : line.getLast? with
  | none => exact absurd member (List.getLast?_eq_none_iff.mp ends ▸ List.not_mem_nil)
  | some last =>
      obtain ⟨start, rfl⟩ := List.getLast?_eq_some_iff.mp ends
      rcases List.mem_append.mp member with early | late
      · exact unbroken (by simpa using early)
      · exact notEnded (by rw [ends, List.mem_singleton.mp late])

namespace IsLineAt

variable {rest : List Char} {character : Char}

/-- A line break is a line with what stands before it. -/
theorem first (rest : List Char) : IsLineAt ('\n' :: rest) 0 [] ['\n'] rest :=
  ⟨rfl, .inl rfl, nofun, .inr rfl, Nat.le_refl _, .inl (by decide)⟩

/-- Another character belongs to the first line after it. -/
theorem joined (other : character ≠ '\n')
    (lies : IsLineAt rest (offset - character.utf8Size) [] line below) :
    IsLineAt (character :: rest) offset [] (character :: line) below := by
  obtain ⟨whole, -, unbroken, closed, -, holds⟩ := lies
  have positive := character.utf8Size_pos
  cases line with
  | nil =>
      obtain rfl := closed.resolve_right nofun
      refine ⟨congrArg (character :: ·) whole, .inl rfl, nofun, .inl rfl, Nat.zero_le _, ?_⟩
      have isEnd := (holds.resolve_left (Nat.not_lt_zero _)).1
      cases whole
      simp only [byteLength] at isEnd ⊢
      by_cases inside : offset < character.utf8Size
      · exact .inl (by omega)
      · exact .inr ⟨by omega, by simpa using other⟩
  | cons next others =>
      refine ⟨congrArg (character :: ·) whole, .inl rfl, ?_, ?_, Nat.zero_le _, ?_⟩
      · rw [List.dropLast_cons_cons]
        exact fun member => (List.mem_cons.mp member).elim (fun same => other same.symm) unbroken
      · rwa [List.getLast?_cons_cons]
      · rw [List.getLast?_cons_cons]
        have nextPositive := next.utf8Size_pos
        simp only [byteLength] at holds ⊢
        rcases holds with inside | ⟨isEnd, isOpen⟩
        · exact .inl (by omega)
        · by_cases inside : offset < character.utf8Size
          · exact .inl (by omega)
          · exact .inr ⟨by omega, isOpen⟩

/-- A line stays one where text is put above it. -/
theorem under (ends : above ≠ [] ∨ character = '\n')
    (lies : IsLineAt rest offset above line below) :
    IsLineAt (character :: rest) (character.utf8Size + offset) (character :: above) line below := by
  obtain ⟨whole, opened, unbroken, closed, starts, holds⟩ := lies
  refine ⟨congrArg (character :: ·) whole, .inr ?_, unbroken, closed, ?_, ?_⟩
  · cases above with
    | nil => exact congrArg some (ends.resolve_left fun holds => holds rfl)
    | cons next others => exact List.getLast?_cons_cons.trans (opened.resolve_left nofun)
  · exact Nat.add_le_add_left starts _
  · simp only [byteLength, Nat.add_assoc]
    exact holds.imp (Nat.add_lt_add_left · _) (And.imp_left (congrArg (character.utf8Size + ·)))

end IsLineAt

/-- Every offset lies on a line. -/
theorem exists_isLineAt (text : List Char) {offset : Nat} (within : offset ≤ byteLength text) :
    ∃ above line below, IsLineAt text offset above line below := by
  induction text generalizing offset with
  | nil =>
      exact ⟨[], [], [], rfl, .inl rfl, nofun, .inl rfl, Nat.zero_le _,
        .inr ⟨Nat.le_zero.mp within, nofun⟩⟩
  | cons character rest induction =>
      rw [byteLength] at within
      have shorter : offset - character.utf8Size ≤ byteLength rest := by omega
      obtain ⟨above, line, below, lies⟩ := induction shorter
      by_cases beyond : character.utf8Size ≤ offset ∧ (above ≠ [] ∨ character = '\n')
      · have lower := lies.under beyond.2
        rw [Nat.add_sub_cancel' beyond.1] at lower
        exact ⟨_, _, _, lower⟩
      · by_cases isBreak : character = '\n'
        · subst isBreak
          have isStart : offset = 0 :=
            Nat.lt_one_iff.mp (Nat.lt_of_not_le fun least => beyond ⟨least, .inr rfl⟩)
          exact isStart ▸ ⟨_, _, _, .first rest⟩
        · have isFirst : above = [] := by
            by_contra holds
            have starts := lies.starts
            have positive := byteLength_pos holds
            exact beyond ⟨by omega, .inl holds⟩
          exact ⟨_, _, _, (isFirst ▸ lies).joined isBreak⟩

namespace IsLineAt

theorem length (lies : IsLineAt text offset above line below) :
    byteLength text = byteLength above + (byteLength line + byteLength below) := by
  rw [lies.whole, byteLength_append, byteLength_append]

/-- The line holds no line break before the offset. -/
theorem not_mem_take (lies : IsLineAt text offset above line below) :
    (10 : UInt8) ∉ (bytes (line ++ below)).take (offset - byteLength above) := by
  have whole := lies.length
  by_cases isBroken : line.getLast? = some '\n'
  · obtain ⟨start, rfl⟩ := List.getLast?_eq_some_iff.mp isBroken
    have inside := lies.holds.resolve_right fun isEnd => isEnd.2 isBroken
    have unbroken : '\n' ∉ start := by simpa using lies.unbroken
    have short : offset - byteLength above ≤ (bytes start).length := by
      rw [length_bytes]
      rw [byteLength_append] at inside
      have : byteLength ['\n'] = 1 := rfl
      omega
    rw [bytes_append, bytes_append, List.append_assoc, List.take_append_of_le_length short]
    exact fun member => not_mem_bytes unbroken (List.mem_of_mem_take member)
  · rw [lies.closed.resolve_right isBroken, List.append_nil]
    exact fun member => not_mem_bytes (not_mem_of_not_ended lies.unbroken isBroken)
      (List.mem_of_mem_take member)

/-- The line breaks before an offset are those above its line. -/
theorem count_take (lies : IsLineAt text offset above line below) :
    ((bytes text).take offset).count 10 = above.count '\n' := by
  have long : (bytes above).length ≤ offset := length_bytes above ▸ lies.starts
  rw [lies.whole, bytes_append, List.take_append, List.take_of_length_le long, length_bytes,
    List.count_append, count_bytes, List.count_eq_zero.mpr lies.not_mem_take, Nat.add_zero]

end IsLineAt

end Text

namespace SourceFile

open Text

variable {file : SourceFile} {above line below characters : List Char} {offset start : Nat}

/-! ## Line starts -/

theorem startsAfterBreaks_append (offset : Nat) (first second : List Char) :
    startsAfterBreaks offset (first ++ second) =
      startsAfterBreaks offset first ++ startsAfterBreaks (offset + byteLength first) second := by
  induction first generalizing offset with
  | nil => rfl
  | cons character rest induction =>
      rw [List.cons_append, startsAfterBreaks, startsAfterBreaks, induction, byteLength,
        Nat.add_assoc]
      split <;> rfl

theorem length_startsAfterBreaks (offset : Nat) (characters : List Char) :
    (startsAfterBreaks offset characters).length = characters.count '\n' := by
  induction characters generalizing offset with
  | nil => rfl
  | cons character rest induction =>
      rw [startsAfterBreaks, List.count_cons]
      by_cases isBreak : character = '\n' <;> simp [isBreak, induction]

theorem startsAfterBreaks_eq_nil (unbroken : '\n' ∉ characters) :
    startsAfterBreaks offset characters = [] := by
  rw [← List.length_eq_zero_iff, length_startsAfterBreaks]
  exact List.count_eq_zero.mpr unbroken

theorem mem_startsAfterBreaks (member : start ∈ startsAfterBreaks offset characters) :
    offset < start ∧ start ≤ offset + byteLength characters := by
  induction characters generalizing offset with
  | nil => exact nomatch member
  | cons character rest induction =>
      have positive := character.utf8Size_pos
      have later : start ∈ startsAfterBreaks (offset + character.utf8Size) rest →
          offset < start ∧ start ≤ offset + byteLength (character :: rest) := by
        intro member
        have bounds := induction member
        rw [byteLength]
        omega
      rw [startsAfterBreaks] at member
      split at member
      · rcases List.mem_cons.mp member with rfl | member
        · rw [byteLength]
          omega
        · exact later member
      · exact later member

/-- The last line starts where its text ends. -/
theorem getLast?_startsAfterBreaks (opened : above = [] ∨ above.getLast? = some '\n') :
    (0 :: startsAfterBreaks 0 above).getLast? = some (byteLength above) := by
  rcases opened with rfl | opened
  · rfl
  · obtain ⟨start, rfl⟩ := List.getLast?_eq_some_iff.mp opened
    rw [startsAfterBreaks_append, byteLength_append, ← List.cons_append, List.getLast?_append]
    simp [startsAfterBreaks, byteLength]

theorem startsAfterBreaks_line (unbroken : '\n' ∉ line.dropLast) :
    startsAfterBreaks start line =
      if line.getLast? = some '\n' then [start + byteLength line] else [] := by
  split
  · rename_i isBroken
    obtain ⟨init, rfl⟩ := List.getLast?_eq_some_iff.mp isBroken
    rw [startsAfterBreaks_append, startsAfterBreaks_eq_nil (by simpa using unbroken),
      byteLength_append, ← Nat.add_assoc]
    rfl
  · exact startsAfterBreaks_eq_nil (not_mem_of_not_ended unbroken ‹_›)

/-- The table closes with the length of the text, unless its last entry is that already. -/
theorem lineStarts_eq_append (file : SourceFile) :
    file.lineStarts = 0 :: startsAfterBreaks 0 file.text.toList ++
      if (0 :: startsAfterBreaks 0 file.text.toList).getLast? = some (byteLength file.text.toList)
        then [] else [byteLength file.text.toList] := by
  unfold lineStarts
  dsimp only
  split
  · exact (List.append_nil _).symm
  · rfl

/-- Below a line that is ended, the next one starts. -/
theorem lineStarts_of_ended (lies : IsLineAt file.text.toList offset above line below)
    (isEnded : line.getLast? = some '\n') :
    ∃ later, file.lineStarts =
        0 :: startsAfterBreaks 0 above ++ (byteLength above + byteLength line) :: later ∧
      ∀ start ∈ later, byteLength above + byteLength line ≤ start := by
  refine ⟨startsAfterBreaks (byteLength above + byteLength line) below ++
    if (0 :: startsAfterBreaks 0 file.text.toList).getLast? = some (byteLength file.text.toList)
      then [] else [byteLength file.text.toList], ?_, fun start member => ?_⟩
  · rw [lineStarts_eq_append]
    conv_lhs => arg 1; rw [lies.whole, startsAfterBreaks_append, startsAfterBreaks_append,
      startsAfterBreaks_line lies.unbroken, if_pos isEnded, Nat.zero_add]
    simp only [List.cons_append, List.append_assoc, List.nil_append]
  · rcases List.mem_append.mp member with inside | closing
    · exact Nat.le_of_lt (mem_startsAfterBreaks inside).1
    · split at closing
      · exact nomatch closing
      · rw [List.mem_singleton.mp closing, lies.length]
        omega

/-- A line that nothing ends is the last one, and is closed by the length of the text. -/
theorem lineStarts_of_not_ended (lies : IsLineAt file.text.toList offset above line below)
    (notEnded : line.getLast? ≠ some '\n') :
    file.lineStarts = 0 :: startsAfterBreaks 0 above ++
      if line = [] then [] else [byteLength above + byteLength line] := by
  obtain rfl := lies.closed.resolve_right notEnded
  have size : byteLength file.text.toList = byteLength above + byteLength line := lies.length
  have own : startsAfterBreaks 0 file.text.toList = startsAfterBreaks 0 above := by
    rw [lies.whole, startsAfterBreaks_append, List.append_nil, startsAfterBreaks_line lies.unbroken,
      if_neg notEnded, List.append_nil]
  rw [lineStarts_eq_append, own, getLast?_startsAfterBreaks lies.opened, size]
  by_cases isEmpty : line = []
  · rw [if_pos isEmpty, isEmpty]
    exact congrArg _ (if_pos rfl)
  · have holds := byteLength_pos isEmpty
    rw [if_neg isEmpty, if_neg (by simp; omega)]

/-- The line starts up to an offset that is no open end are those of the lines above and of its
own line, and the next one is where this line ends. -/
theorem exists_lineStarts (lies : IsLineAt file.text.toList offset above line below)
    (notOpen : ¬IsOpenEnd file.text.toList offset) :
    ∃ later, file.lineStarts = 0 :: startsAfterBreaks 0 above ++ later ∧
      (∀ start ∈ later, offset < start) ∧
      (line ≠ [] → later.head? = some (byteLength above + byteLength line)) := by
  by_cases isEnded : line.getLast? = some '\n'
  · have inside := lies.holds.resolve_right fun isEnd => isEnd.2 isEnded
    obtain ⟨later, starts, bound⟩ := lineStarts_of_ended lies isEnded
    refine ⟨_, starts, fun start member => ?_, fun _ => rfl⟩
    rcases List.mem_cons.mp member with rfl | member
    · exact inside
    · exact Nat.lt_of_lt_of_le inside (bound start member)
  · refine ⟨_, lineStarts_of_not_ended lies isEnded, fun start member => ?_,
      fun holds => by rw [if_neg holds]; rfl⟩
    split at member
    · exact nomatch member
    · rename_i holds
      rw [List.mem_singleton.mp member]
      refine lies.holds.resolve_right fun ⟨isEnd, _⟩ => notOpen ⟨isEnd, ?_, ?_⟩
      · rw [lies.whole]
        simp [holds]
      · rw [lies.whole, lies.closed.resolve_right isEnded, List.append_nil,
          List.getLast?_append_of_ne_nil _ holds]
        exact isEnded

/-! ## Places -/

/-- What may stand at the end of a line. -/
def isTerminator (character : Char) : Bool :=
  character == '\n' || character == '\r'

theorem lineText?_succ (file : SourceFile) (index : Nat) :
    file.lineText? (index + 1) = do
      let start ← file.lineStarts[index]?
      let stop ← file.lineStarts[index + 1]?
      let text ← slice? file.text.toList start stop
      return text.rdropWhile isTerminator :=
  rfl

theorem filter_lineStarts (lies : IsLineAt file.text.toList offset above line below)
    {later : List Nat} (beyond : ∀ start ∈ later, offset < start) :
    (0 :: startsAfterBreaks 0 above ++ later).filter (· ≤ offset) =
      0 :: startsAfterBreaks 0 above := by
  rw [List.filter_append, List.filter_eq_self.mpr, List.filter_eq_nil_iff.mpr, List.append_nil]
  · intro start member
    simpa using beyond start member
  · intro start member
    have before : start ≤ byteLength above := by
      rcases List.mem_cons.mp member with rfl | member
      · exact Nat.zero_le _
      · simpa using (mem_startsAfterBreaks member).2
    exact decide_eq_true (Nat.le_trans before lies.starts)

theorem lineColumn?_eq (lies : IsLineAt file.text.toList offset above line below)
    (notOpen : ¬IsOpenEnd file.text.toList offset) :
    file.lineColumn? offset = some (above.count '\n' + 1, offset - byteLength above + 1) := by
  have within : offset ≤ byteLength file.text.toList := by
    have := lies.length
    rcases lies.holds with inside | ⟨isEnd, -⟩ <;> omega
  obtain ⟨later, starts, beyond, -⟩ := exists_lineStarts lies notOpen
  rw [lineColumn?, if_pos within, starts]
  dsimp only
  rw [filter_lineStarts lies beyond, getLast?_startsAfterBreaks lies.opened, List.length_cons,
    length_startsAfterBreaks, Option.getD_some]

theorem lineText?_eq (lies : IsLineAt file.text.toList offset above line below)
    (notOpen : ¬IsOpenEnd file.text.toList offset) (holds : line ≠ []) :
    file.lineText? (above.count '\n' + 1) = some (line.rdropWhile isTerminator) := by
  obtain ⟨later, starts, -, next⟩ := exists_lineStarts lies notOpen
  have length : (0 :: startsAfterBreaks 0 above).length = above.count '\n' + 1 := by
    rw [List.length_cons, length_startsAfterBreaks]
  have own : file.lineStarts[above.count '\n']? = some (byteLength above) := by
    rw [starts, List.getElem?_append_left (by rw [length]; exact Nat.lt_succ_self _),
      ← getLast?_startsAfterBreaks lies.opened, List.getLast?_eq_getElem?, length]
    rfl
  have following : file.lineStarts[above.count '\n' + 1]? =
      some (byteLength above + byteLength line) := by
    rw [starts, List.getElem?_append_right (Nat.le_of_eq length), length, Nat.sub_self,
      ← List.head?_eq_getElem?, next holds]
  rw [lineText?_succ, own, following]
  dsimp only [Option.bind_eq_bind, Option.bind_some]
  rw [lies.whole, slice?_append]
  rfl

/-- An offset is placed on the line on which it lies, at its distance from the start of the line,
and the text of that line can be read, if there is any. -/
def PlacesExactly (file : SourceFile) (offset : Nat) : Prop :=
  ∃ above line below, IsLineAt file.text.toList offset above line below ∧
    file.lineColumn? offset = some (1 + ((bytes file.text.toList).take offset).count 10,
      1 + (offset - byteLength above)) ∧
    (line ≠ [] → file.lineText? (1 + ((bytes file.text.toList).take offset).count 10) =
      some (line.rdropWhile isTerminator))

theorem placesExactly_of_not_openEnd (within : offset ≤ byteLength file.text.toList)
    (notOpen : ¬IsOpenEnd file.text.toList offset) : file.PlacesExactly offset := by
  obtain ⟨above, line, below, lies⟩ := exists_isLineAt file.text.toList within
  refine ⟨above, line, below, lies, ?_, fun holds => ?_⟩
  · rw [lineColumn?_eq lies notOpen, lies.count_take, Nat.add_comm 1, Nat.add_comm 1]
  · rw [lies.count_take, Nat.add_comm]
    exact lineText?_eq lies notOpen holds

/-- The end of an open line is placed at the start of one below, which has no text. -/
theorem lineColumn?_openEnd (isOpenEnd : IsOpenEnd file.text.toList offset) :
    file.lineColumn? offset =
        some (2 + ((bytes file.text.toList).take offset).count 10, 1) ∧
      file.lineText? (2 + ((bytes file.text.toList).take offset).count 10) = none := by
  obtain ⟨isEnd, nonempty, isOpen⟩ := isOpenEnd
  obtain ⟨above, line, below, lies⟩ :=
    exists_isLineAt file.text.toList (Nat.le_of_eq isEnd)
  have length := lies.length
  have notEnded := (lies.holds.resolve_left (by omega)).2
  have whole : file.text.toList = above ++ line := by
    rw [lies.whole, lies.closed.resolve_right notEnded, List.append_nil]
  have holds : line ≠ [] := by
    rintro rfl
    rw [whole, List.append_nil] at nonempty isOpen
    exact isOpen (lies.opened.resolve_left nonempty)
  have starts := lineStarts_of_not_ended lies notEnded
  rw [if_neg holds, ← byteLength_append, ← whole, ← isEnd] at starts
  have count : file.lineStarts.length = 2 + above.count '\n' := by
    rw [starts, List.length_append, List.length_cons, length_startsAfterBreaks,
      List.length_singleton]
    omega
  have all : file.lineStarts.filter (· ≤ offset) = file.lineStarts := by
    refine List.filter_eq_self.mpr fun start member => decide_eq_true ?_
    rw [starts] at member
    rcases List.mem_append.mp member with inside | closing
    · rcases List.mem_cons.mp inside with rfl | inside
      · exact Nat.zero_le _
      · have := (mem_startsAfterBreaks inside).2
        have := lies.starts
        omega
    · exact Nat.le_of_eq (List.mem_singleton.mp closing)
  have last : file.lineStarts.getLast? = some offset := by
    rw [starts, List.getLast?_concat]
  rw [lies.count_take, ← count]
  constructor
  · rw [lineColumn?, if_pos (Nat.le_of_eq isEnd)]
    dsimp only
    rw [all, last, Option.getD_some, Nat.sub_self]
  · obtain ⟨index, isIndex⟩ := Nat.exists_eq_add_one.mpr
      (show 0 < file.lineStarts.length by rw [count]; omega)
    have beyond : file.lineStarts[index + 1]? = none :=
      List.getElem?_eq_none (Nat.le_of_eq isIndex)
    rw [isIndex, lineText?_succ, beyond]
    cases file.lineStarts[index]? <;> rfl

theorem not_placesExactly (isOpenEnd : IsOpenEnd file.text.toList offset) :
    ¬file.PlacesExactly offset := by
  rintro ⟨_, _, _, -, place, -⟩
  rw [(lineColumn?_openEnd isOpenEnd).1, Option.some.injEq, Prod.mk.injEq] at place
  omega

/-- An offset in a text is placed exactly, unless it is the end of one that stops without a line
break: that is placed at the start of a line below the last one. An offset beyond has no place. -/
theorem places_exactly_iff (file : SourceFile) (offset : Nat) :
    (byteLength file.text.toList < offset → file.lineColumn? offset = none) ∧
      (offset ≤ byteLength file.text.toList →
        (file.PlacesExactly offset ↔ ¬IsOpenEnd file.text.toList offset)) ∧
      (IsOpenEnd file.text.toList offset →
        file.lineColumn? offset =
            some (2 + ((bytes file.text.toList).take offset).count 10, 1) ∧
          file.lineText? (2 + ((bytes file.text.toList).take offset).count 10) = none) := by
  exact ⟨fun beyond => if_neg (Nat.not_le_of_lt beyond),
    fun within => ⟨fun places isOpenEnd => not_placesExactly isOpenEnd places,
      placesExactly_of_not_openEnd within⟩,
    lineColumn?_openEnd⟩

/-- A text of one open line. -/
def openLine : SourceFile :=
  ⟨⟨"a.adl"⟩, "type a.A", false⟩

/-- Its end is on the first line, and is placed on the second one. -/
theorem openLine_end_misplaced :
    IsLineAt openLine.text.toList 8 [] openLine.text.toList [] ∧
      openLine.lineColumn? 8 = some (2, 1) ∧ openLine.lineText? 2 = none ∧
      ¬openLine.PlacesExactly 8 :=
  ⟨⟨rfl, .inl rfl, by decide +kernel, .inl rfl, Nat.zero_le _,
      .inr ⟨by decide +kernel, by decide +kernel⟩⟩,
    by decide +kernel, by decide +kernel,
    not_placesExactly ⟨by decide +kernel, by decide +kernel, by decide +kernel⟩⟩

end SourceFile

end Adl
