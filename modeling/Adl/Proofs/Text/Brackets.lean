import Adl.Proofs.Definition.ReferenceText

namespace Adl.Text

/-! Texts whose commas all stand in brackets or in quotes. Such texts can be told apart where
they are listed with commas between them. -/

/-- Where a reader of a text is: outside quotes, in quotes or after a backslash in quotes, with
the number of the brackets that are open around. -/
inductive Place where
  | outside (depth : Nat)
  | quoted (depth : Nat)
  | escaped (depth : Nat)
deriving DecidableEq

namespace Place

/-- Where the reader is after a character. Outside of everything there is no comma to read and
no bracket to close. -/
def step : Place → Char → Option Place
  | .outside depth, character =>
      if character = '"' then some (.quoted depth)
      else if character = '<' ∨ character = '(' then some (.outside (depth + 1))
      else if character = '>' ∨ character = ')' then
        if depth = 0 then none else some (.outside (depth - 1))
      else if character = ',' ∧ depth = 0 then none
      else some (.outside depth)
  | .quoted depth, character =>
      if character = '\\' then some (.escaped depth)
      else if character = '"' then some (.outside depth)
      else some (.quoted depth)
  | .escaped depth, _ => some (.quoted depth)

def read (place : Place) (characters : List Char) : Option Place :=
  characters.foldlM step place

variable {place reached : Place} {characters more : List Char}

theorem read_append (place : Place) (characters more : List Char) :
    place.read (characters ++ more) = (place.read characters).bind (·.read more) :=
  List.foldlM_append

theorem read_append_of_eq (read : place.read characters = some reached) :
    place.read (characters ++ more) = reached.read more := by
  rw [read_append, read]
  rfl

end Place

/-- Every bracket and every quote is closed again, and no comma stands outside of these. -/
def IsBalanced (characters : List Char) : Prop :=
  (Place.outside 0).read characters = some (.outside 0)

instance (characters : List Char) : Decidable (IsBalanced characters) :=
  inferInstanceAs (Decidable (_ = _))

namespace IsBalanced

variable {characters more : List Char} {items left right : List (List Char)}

/-- A balanced text ends before the first comma that stands outside of it. -/
theorem append_inj {leftRest rightRest : List Char} (first : IsBalanced characters)
    (second : IsBalanced more) (leftBegins : BeginsWith [','] leftRest)
    (rightBegins : BeginsWith [','] rightRest)
    (equal : characters ++ leftRest = more ++ rightRest) :
    characters = more ∧ leftRest = rightRest := by
  have stops {balanced rest tail : List Char} (isBalanced : IsBalanced balanced)
      (longer : IsBalanced (balanced ++ tail)) (begins : BeginsWith [','] (tail ++ rest)) :
      tail = [] := by
    cases tail with
    | nil => rfl
    | cons character tail =>
        cases List.mem_singleton.mp (begins character (tail ++ rest) rfl)
        rw [IsBalanced, Place.read_append_of_eq isBalanced] at longer
        cases longer
  rcases List.append_eq_append_iff.mp equal with ⟨tail, rfl, rfl⟩ | ⟨tail, rfl, rfl⟩
  · cases stops first second leftBegins
    simp
  · cases stops second first rightBegins
    simp

theorem beginsWith_following (items : List (List Char)) : BeginsWith [','] (following items) := by
  cases items with
  | nil => exact .nil
  | cons item rest =>
      rw [following_cons]
      exact .cons _ List.mem_cons_self

theorem following_inj (leftBalanced : ∀ item ∈ left, IsBalanced item)
    (rightBalanced : ∀ item ∈ right, IsBalanced item)
    (equal : following left = following right) : left = right := by
  induction left generalizing right with
  | nil =>
      cases right with
      | nil => rfl
      | cons second right =>
          rw [following_cons] at equal
          cases equal
  | cons first left induction =>
      cases right with
      | nil =>
          rw [following_cons] at equal
          cases equal
      | cons second right =>
          obtain ⟨balancedFirst, balancedLeft⟩ := List.forall_mem_cons.mp leftBalanced
          obtain ⟨balancedSecond, balancedRight⟩ := List.forall_mem_cons.mp rightBalanced
          rw [following_cons, following_cons] at equal
          obtain ⟨rfl, same⟩ := append_inj balancedFirst balancedSecond (beginsWith_following left)
            (beginsWith_following right) (List.cons.inj (List.cons.inj equal).2).2
          exact congrArg _ (induction balancedLeft balancedRight same)

/-- Lists of the same number of balanced texts are told apart. -/
theorem intercalate_inj (leftBalanced : ∀ item ∈ left, IsBalanced item)
    (rightBalanced : ∀ item ∈ right, IsBalanced item) (length : left.length = right.length)
    (equal : [',', ' '].intercalate left = [',', ' '].intercalate right) : left = right := by
  cases left with
  | nil => exact (List.eq_nil_of_length_eq_zero length.symm).symm
  | cons first left =>
      cases right with
      | nil => cases length
      | cons second right =>
          obtain ⟨balancedFirst, balancedLeft⟩ := List.forall_mem_cons.mp leftBalanced
          obtain ⟨balancedSecond, balancedRight⟩ := List.forall_mem_cons.mp rightBalanced
          rw [intercalate_eq, intercalate_eq] at equal
          obtain ⟨rfl, same⟩ := append_inj balancedFirst balancedSecond (beginsWith_following left)
            (beginsWith_following right) equal
          rw [following_inj balancedLeft balancedRight same]

end IsBalanced

example : IsBalanced "a.G<a.Q(s=\",\"), T>".toList := by decide

example : ¬IsBalanced "T, U".toList := by decide

end Adl.Text
