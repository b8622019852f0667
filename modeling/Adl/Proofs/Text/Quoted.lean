import Adl.Text.Hexadecimal
import Adl.Text.Quoted

namespace Adl.Text

/-! Quoted text is read back in one way only, whatever follows it. -/

/-! ## Hexadecimal numbers -/

def hexadecimalValue (digits : List Char) : Nat :=
  digits.foldl (fun value digit => value * 16 + (digitValue? digit).getD 0) 0

theorem digitValue?_digitChar : ∀ value < 16, digitValue? (Nat.digitChar value) = some value := by
  decide

theorem hexadecimalValue_hexDigits (value : Nat) : hexadecimalValue (hexDigits value) = value := by
  induction value using Nat.strongRecOn with
  | ind value induction =>
      unfold hexDigits
      rcases Nat.lt_or_ge value 16 with small | large
      · rw [Nat.toDigits_of_lt_base small]
        simp [hexadecimalValue, digitValue?_digitChar value small]
      · have shorter := induction (value / 16) (Nat.div_lt_self (by omega) (by decide))
        have last := digitValue?_digitChar (value % 16) (Nat.mod_lt _ (by decide))
        rw [Nat.toDigits_of_base_le (by decide) large]
        simp only [hexadecimalValue, hexDigits] at shorter
        simp only [hexadecimalValue, List.foldl_append, List.foldl_cons, List.foldl_nil, shorter,
          last, Option.getD_some]
        omega

theorem exists_of_mem_hexDigits {value : Nat} {digit : Char} (member : digit ∈ hexDigits value) :
    ∃ number < 16, digit = Nat.digitChar number := by
  induction value using Nat.strongRecOn with
  | ind value induction =>
      unfold hexDigits at *
      rcases Nat.lt_or_ge value 16 with small | large
      · rw [Nat.toDigits_of_lt_base small, List.mem_singleton] at member
        exact ⟨value, small, member⟩
      · rw [Nat.toDigits_of_base_le (by decide) large, List.mem_append, List.mem_singleton] at member
        rcases member with earlier | rfl
        · exact induction _ (Nat.div_lt_self (by omega) (by decide)) earlier
        · exact ⟨value % 16, Nat.mod_lt _ (by decide), rfl⟩

/-- No digit means anything in quotes. -/
theorem plain_of_mem_hexDigits {value : Nat} {digit : Char} (member : digit ∈ hexDigits value) :
    digit ≠ '}' ∧ digit ≠ '\\' ∧ digit ≠ '"' := by
  obtain ⟨number, small, rfl⟩ := exists_of_mem_hexDigits member
  have plain : ∀ number < 16, Nat.digitChar number ≠ '}' ∧ Nat.digitChar number ≠ '\\' ∧
      Nat.digitChar number ≠ '"' := by
    decide
  exact plain number small

/-! ## Characters -/

/-- The first character of the inside of quoted text, and what follows it. -/
def readCharacter? : List Char → Option (Char × List Char)
  | [] => none
  | '"' :: _ => none
  | '\\' :: '0' :: rest => some ('\x00', rest)
  | '\\' :: 't' :: rest => some ('\t', rest)
  | '\\' :: 'n' :: rest => some ('\n', rest)
  | '\\' :: 'r' :: rest => some ('\r', rest)
  | '\\' :: 'u' :: '{' :: rest =>
      some (Char.ofNat (hexadecimalValue (rest.takeWhile (· != '}'))),
        (rest.dropWhile (· != '}')).drop 1)
  | '\\' :: character :: rest => some (character, rest)
  | character :: rest => some (character, rest)

theorem readCharacter?_quotedCharacter (character : Char) (rest : List Char) :
    readCharacter? (quotedCharacter character ++ rest) = some (character, rest) := by
  unfold quotedCharacter
  split
  · rfl
  · rfl
  · rfl
  · rfl
  · rfl
  · rfl
  · rename_i notNull notTab notFeed notReturn notQuote notBackslash
    split
    · have digits : ∀ digit ∈ hexDigits character.toNat, (digit != '}') = true := by
        intro digit member
        exact bne_iff_ne.mpr (plain_of_mem_hexDigits member).1
      simp only [List.append_assoc, List.cons_append, List.nil_append, readCharacter?]
      rw [List.takeWhile_append_of_pos digits, List.dropWhile_append_of_pos digits]
      simp [hexadecimalValue_hexDigits]
    · change readCharacter? (character :: rest) = _
      unfold readCharacter?
      split
      · contradiction
      all_goals simp_all

theorem quotedCharacter_append_inj {left right : Char} {leftRest rightRest : List Char}
    (equal : quotedCharacter left ++ leftRest = quotedCharacter right ++ rightRest) :
    left = right ∧ leftRest = rightRest := by
  have reads := readCharacter?_quotedCharacter left leftRest
  rw [equal, readCharacter?_quotedCharacter] at reads
  cases reads
  exact ⟨rfl, rfl⟩

theorem quotedCharacter_append_ne (character : Char) (rest other : List Char) :
    quotedCharacter character ++ rest ≠ '"' :: other := by
  intro equal
  have reads := readCharacter?_quotedCharacter character rest
  rw [equal] at reads
  exact nomatch reads

/-! ## Texts -/

theorem quoted_append_inj {left right : String} {leftRest rightRest : List Char}
    (equal : (quoted left).toList ++ leftRest = (quoted right).toList ++ rightRest) :
    left = right ∧ leftRest = rightRest := by
  have inside : ∀ left right : List Char,
      left.flatMap quotedCharacter ++ '"' :: leftRest =
        right.flatMap quotedCharacter ++ '"' :: rightRest →
      left = right ∧ leftRest = rightRest := by
    intro left
    induction left with
    | nil =>
        intro right equal
        cases right with
        | nil => exact ⟨rfl, List.tail_eq_of_cons_eq equal⟩
        | cons character right =>
            rw [List.flatMap_cons, List.append_assoc] at equal
            exact absurd equal.symm (quotedCharacter_append_ne _ _ _)
    | cons character left induction =>
        intro right equal
        rw [List.flatMap_cons, List.append_assoc] at equal
        cases right with
        | nil => exact absurd equal (quotedCharacter_append_ne _ _ _)
        | cons other right =>
            rw [List.flatMap_cons, List.append_assoc] at equal
            obtain ⟨rfl, following⟩ := quotedCharacter_append_inj equal
            obtain ⟨rfl, same⟩ := induction right following
            exact ⟨rfl, same⟩
  simp only [quoted, String.toList_ofList, List.cons_append, List.append_assoc,
    List.nil_append] at equal
  obtain ⟨same, sameRest⟩ := inside _ _ (List.tail_eq_of_cons_eq equal)
  exact ⟨String.toList_inj.mp same, sameRest⟩

end Adl.Text
