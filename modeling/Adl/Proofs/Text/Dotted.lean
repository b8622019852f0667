import Adl.Text.Dotted

namespace Adl.Text

/-! Names that are cut at their last dot. -/

theorem dot_mem_iff {characters : List Char} :
    '.' ∈ characters ↔ (splitLastDot? characters).isSome = true := by
  induction characters with
  | nil => exact ⟨nofun, nofun⟩
  | cons character rest induction =>
      rw [splitLastDot?, List.mem_cons, induction]
      cases splitLastDot? rest with
      | some parts => simp
      | none =>
          by_cases isDot : character = '.'
          · simp [isDot]
          · simp [isDot, Ne.symm isDot]

theorem splitLastDot?_eq_some_iff {characters before after : List Char} :
    splitLastDot? characters = some (before, after) ↔
      characters = before ++ '.' :: after ∧ '.' ∉ after := by
  constructor
  · intro splits
    induction characters generalizing before with
    | nil => exact nomatch splits
    | cons character rest induction =>
        rw [splitLastDot?] at splits
        split at splits
        · rename_i found
          cases splits
          obtain ⟨whole, plain⟩ := induction found
          exact ⟨congrArg (character :: ·) whole, plain⟩
        · rename_i absent
          split at splits
          · rename_i isDot
            cases splits
            exact ⟨congrArg (· :: after) isDot, fun dot => by simp [dot_mem_iff, absent] at dot⟩
          · exact nomatch splits
  · rintro ⟨rfl, plain⟩
    induction before with
    | nil =>
        have unsplit : splitLastDot? after = none :=
          Option.not_isSome_iff_eq_none.mp fun splits => plain (dot_mem_iff.mpr splits)
        rw [List.nil_append, splitLastDot?, unsplit]
        rfl
    | cons character rest induction =>
        rw [List.cons_append, splitLastDot?, induction]

theorem hasDot_iff {name : String} : hasDot name = true ↔ '.' ∈ name.toList := by
  rw [hasDot, List.contains_iff_mem]

theorem splitLastDot?_eq_none_iff {characters : List Char} :
    splitLastDot? characters = none ↔ '.' ∉ characters := by
  rw [dot_mem_iff, Option.not_isSome_iff_eq_none]

/-- What follows a dot is simple. -/
theorem splitLastDot?_append (package : String) {name : String} (simple : '.' ∉ name.toList) :
    splitLastDot? (package ++ "." ++ name).toList = some (package.toList, name.toList) :=
  splitLastDot?_eq_some_iff.mpr ⟨by simp, simple⟩

theorem simpleName_append (package : String) {name : String} (simple : '.' ∉ name.toList) :
    simpleName (package ++ "." ++ name) = name := by
  simp only [simpleName, splitLastDot?_append package simple, String.ofList_toList]

theorem dot_not_mem_simpleName (name : String) : '.' ∉ (simpleName name).toList := by
  unfold simpleName
  split
  · rename_i before after splits
    rw [String.toList_ofList]
    exact (splitLastDot?_eq_some_iff.mp splits).2
  · rename_i unsplit
    exact splitLastDot?_eq_none_iff.mp unsplit

/-- A simple name is its own. -/
theorem simpleName_simpleName (name : String) : simpleName (simpleName name) = simpleName name := by
  rw [simpleName, splitLastDot?_eq_none_iff.mpr (dot_not_mem_simpleName name)]

end Adl.Text
