import Adl.Definition.Reference
import Adl.Proofs.Text.Quoted
import Std.Data.String.ToInt

namespace Adl

open Text

/-! What the printed form of a reference tells: everything but spans, decorations, and
whether a type argument that is a single name stands for a definition or for a type
parameter. -/

/-! ## Words -/

/-- What stands between the words of a reference. -/
def delimiters : List Char := ['<', '>', '(', ')', ',', ':', '=', '"']

/-- What may stand after an argument. -/
def closings : List Char := ['>', ')', ',']

def IsWord (text : String) : Prop :=
  ∀ character ∈ text.toList, character ∉ delimiters

instance (text : String) : Decidable (IsWord text) :=
  List.decidableBAll (· ∉ delimiters) text.toList

/-- What follows begins with one of the characters, if there is anything. -/
def BeginsWith (characters rest : List Char) : Prop :=
  ∀ character tail, rest = character :: tail → character ∈ characters

namespace BeginsWith

variable {characters more rest tail : List Char} {character : Char}

theorem nil : BeginsWith characters [] :=
  fun _ _ equal => nomatch equal

theorem cons (tail : List Char) (member : character ∈ characters) :
    BeginsWith characters (character :: tail) := by
  intro other _ equal
  cases equal
  exact member

theorem mono (begins : BeginsWith characters rest)
    (among : ∀ character ∈ characters, character ∈ more) : BeginsWith more rest :=
  fun character tail equal => among character (begins character tail equal)

theorem ne_cons (begins : BeginsWith characters rest) (different : character ∉ characters) :
    rest ≠ character :: tail :=
  fun equal => different (begins character tail equal)

end BeginsWith

theorem closings_subset_delimiters : ∀ character ∈ closings, character ∈ delimiters := by
  simp [closings, delimiters]

theorem word_append_inj {left right leftRest rightRest : List Char}
    (leftWord : ∀ character ∈ left, character ∉ delimiters)
    (rightWord : ∀ character ∈ right, character ∉ delimiters)
    (leftBegins : BeginsWith delimiters leftRest) (rightBegins : BeginsWith delimiters rightRest)
    (equal : left ++ leftRest = right ++ rightRest) : left = right ∧ leftRest = rightRest := by
  induction left generalizing right with
  | nil =>
      cases right with
      | nil => exact ⟨rfl, equal⟩
      | cons character right =>
          exact absurd equal (leftBegins.ne_cons (rightWord _ List.mem_cons_self))
  | cons character left induction =>
      cases right with
      | nil =>
          exact absurd equal.symm (rightBegins.ne_cons (leftWord _ List.mem_cons_self))
      | cons other right =>
          obtain ⟨rfl, following⟩ := List.cons.inj equal
          obtain ⟨rfl, same⟩ := induction
            (fun other member => leftWord other (List.mem_cons_of_mem _ member))
            (fun other member => rightWord other (List.mem_cons_of_mem _ member)) following
          exact ⟨rfl, same⟩

/-! ## Values -/

/-- Whether a text is taken for the name of a parameter and not for a literal. -/
def IsParameterName (text : String) : Prop :=
  IsWord text ∧ text ≠ "null" ∧
    ∀ character ∈ text.toList.head?, character.isDigit = false ∧ character ≠ '-'

instance (text : String) : Decidable (IsParameterName text) :=
  have _ : Decidable (∀ character ∈ text.toList.head?,
      character.isDigit = false ∧ character ≠ '-') := Option.decidableForallMem _
  inferInstanceAs (Decidable (_ ∧ _ ∧ _))

namespace Value

def IsPlain : Value → Prop
  | .reference parameter => IsParameterName parameter
  | _ => True

instance : (value : Value) → Decidable value.IsPlain
  | .reference parameter => inferInstanceAs (Decidable (IsParameterName parameter))
  | .string _ | .number _ | .null => inferInstanceAs (Decidable True)

theorem mem_text_number (value : Int64) {character : Char}
    (member : character ∈ (text (.number value)).toList) :
    character.isDigit = true ∨ character = '-' := by
  change character ∈ (toString value.toInt).toList at member
  rw [Int.toString_eq_repr, Int.repr_eq_if] at member
  split at member
  · rw [Nat.toList_repr] at member
    exact .inl (Nat.isDigit_of_mem_toDigits (by decide) (by decide) member)
  · rw [String.toList_append, List.mem_append] at member
    rcases member with sign | digit
    · exact .inr (by simpa using sign)
    · rw [Nat.toList_repr] at digit
      exact .inl (Nat.isDigit_of_mem_toDigits (by decide) (by decide) digit)

theorem text_number_ne_null (value : Int64) : text (.number value) ≠ "null" := by
  intro equal
  have member : 'n' ∈ (text (.number value)).toList := by
    rw [equal]
    decide
  rcases mem_text_number value member with digit | sign
  · exact absurd digit (by decide)
  · exact absurd sign (by decide)

theorem text_number_inj {left right : Int64}
    (equal : text (.number left) = text (.number right)) : left = right :=
  Int64.toInt_inj.mp (Int.repr_inj.mp equal)

theorem text_number_ne_parameter (value : Int64) {parameter : String}
    (isName : IsParameterName parameter) : text (.number value) ≠ parameter := by
  rintro rfl
  cases start : (text (.number value)).toList with
  | nil =>
      have repr : (toString value.toInt).toList = [] := start
      rw [Int.toString_eq_repr, Int.repr_eq_if] at repr
      split at repr
      · rw [Nat.toList_repr] at repr
        exact Nat.toDigits_ne_nil repr
      · simp at repr
  | cons character rest =>
      obtain ⟨notDigit, notSign⟩ := isName.2.2 character (by rw [start]; rfl)
      rcases mem_text_number value (start ▸ List.mem_cons_self) with digit | sign
      · exact nomatch digit.symm.trans notDigit
      · exact notSign sign

/-- The values that are printed as they are. -/
def IsBare : Value → Prop
  | .string _ => False
  | _ => True

variable {left right : Value}

theorem isWord_text (plain : left.IsPlain) (bare : left.IsBare) : IsWord left.text := by
  cases left with
  | string text => exact bare.elim
  | number value =>
      intro character member
      rcases mem_text_number value member with digit | rfl
      · intro delimiter
        simp only [delimiters, List.mem_cons, List.not_mem_nil, or_false] at delimiter
        rcases delimiter with rfl | rfl | rfl | rfl | rfl | rfl | rfl | rfl <;>
          exact absurd digit (by decide)
      · decide
  | reference parameter => exact plain.1
  | null => exact (by decide : IsWord "null")

theorem eq_of_text_eq (leftPlain : left.IsPlain) (rightPlain : right.IsPlain)
    (leftBare : left.IsBare) (rightBare : right.IsBare) (equal : left.text = right.text) :
    left = right := by
  cases left with
  | string text => exact leftBare.elim
  | number value =>
      cases right with
      | string text => exact rightBare.elim
      | number other => exact congrArg number (text_number_inj equal)
      | reference parameter => exact absurd equal (text_number_ne_parameter value rightPlain)
      | null => exact absurd equal (text_number_ne_null value)
  | reference parameter =>
      cases right with
      | string text => exact rightBare.elim
      | number other => exact absurd equal.symm (text_number_ne_parameter other leftPlain)
      | reference other => exact congrArg reference equal
      | null => exact absurd equal leftPlain.2.1
  | null =>
      cases right with
      | string text => exact rightBare.elim
      | number other => exact absurd equal.symm (text_number_ne_null other)
      | reference parameter => exact absurd equal.symm rightPlain.2.1
      | null => rfl

theorem bare_append_ne_quoted (plain : left.IsPlain) (bare : left.IsBare) (text : String)
    {rest other : List Char} (begins : BeginsWith closings rest) :
    left.text.toList ++ rest ≠ (quoted text).toList ++ other := by
  intro equal
  simp only [quoted, String.toList_ofList, List.cons_append] at equal
  cases start : left.text.toList with
  | nil =>
      rw [start, List.nil_append] at equal
      exact begins.ne_cons (by decide) equal
  | cons character following =>
      rw [start, List.cons_append] at equal
      have mark := (List.cons.inj equal).1
      refine isWord_text plain bare character (start ▸ List.mem_cons_self) ?_
      rw [mark]
      decide

theorem string_or_isBare (value : Value) : (∃ text, value = .string text) ∨ value.IsBare := by
  cases value with
  | string text => exact .inl ⟨text, rfl⟩
  | number value => exact .inr trivial
  | reference parameter => exact .inr trivial
  | null => exact .inr trivial

/-- A value is told apart from what follows it, and from any other value. -/
theorem text_append_inj {leftRest rightRest : List Char} (leftPlain : left.IsPlain)
    (rightPlain : right.IsPlain) (leftBegins : BeginsWith closings leftRest)
    (rightBegins : BeginsWith closings rightRest)
    (equal : left.text.toList ++ leftRest = right.text.toList ++ rightRest) :
    left = right ∧ leftRest = rightRest := by
  rcases left.string_or_isBare with ⟨text, rfl⟩ | leftBare
  · rcases right.string_or_isBare with ⟨other, rfl⟩ | rightBare
    · obtain ⟨rfl, sameRest⟩ := quoted_append_inj equal
      exact ⟨rfl, sameRest⟩
    · exact absurd equal.symm (bare_append_ne_quoted rightPlain rightBare text rightBegins)
  · rcases right.string_or_isBare with ⟨other, rfl⟩ | rightBare
    · exact absurd equal (bare_append_ne_quoted leftPlain leftBare other leftBegins)
    · obtain ⟨same, sameRest⟩ := word_append_inj (isWord_text leftPlain leftBare)
        (isWord_text rightPlain rightBare) (leftBegins.mono closings_subset_delimiters)
        (rightBegins.mono closings_subset_delimiters) equal
      exact ⟨eq_of_text_eq leftPlain rightPlain leftBare rightBare
        (String.toList_inj.mp same), sameRest⟩

end Value

/-! ## Outlines -/

/-- A value argument without its place. -/
abbrev PlacelessArgument := Option String × Value

mutual
/-- What the printed form of a reference shows. -/
inductive Outline where
  | reference (name : String) (arguments : List PlacelessArgument) (typeArguments : Outlines)

/-- Type arguments with the names of the parameters that they are for. -/
inductive Outlines where
  | nil
  | cons (label : Option String) (outline : Outline) (rest : Outlines)
end

mutual
def Reference.outline : Reference → Outline
  | ⟨name, arguments, typeArguments, _, _⟩ =>
      .reference name (arguments.map fun argument => (argument.name, argument.value))
        (outlines typeArguments)

def Reference.outlines : List TypeArgument → Outlines
  | [] => .nil
  | ⟨name, .definition reference, _⟩ :: rest => .cons name reference.outline (outlines rest)
  | ⟨name, .parameter parameter, _⟩ :: rest =>
      .cons name (.reference parameter [] .nil) (outlines rest)
end

/-! The characters that outlines are printed with. -/

/-- Items that each follow another one. -/
def following (items : List (List Char)) : List Char :=
  items.flatMap fun item => ',' :: ' ' :: item

theorem following_cons (item : List Char) (rest : List (List Char)) :
    following (item :: rest) = ',' :: ' ' :: (item ++ following rest) := by
  rw [following, List.flatMap_cons]
  rfl

/-- Items in brackets, or nothing if there are none. -/
def bracketed (opening closing : Char) : List (List Char) → List Char
  | [] => []
  | item :: rest => opening :: (item ++ (following rest ++ [closing]))

theorem following_of_bracketed {opening closing : Char} {left right leftRest rightRest : List Char}
    {leftItems rightItems : List (List Char)}
    (equal : bracketed opening closing (left :: leftItems) ++ leftRest =
      bracketed opening closing (right :: rightItems) ++ rightRest) :
    following (left :: leftItems) ++ closing :: leftRest =
      following (right :: rightItems) ++ closing :: rightRest := by
  simp only [bracketed, List.cons_append, List.append_assoc, List.nil_append, List.cons.injEq,
    true_and] at equal
  simp only [following_cons, List.cons_append, List.append_assoc, equal]

def PlacelessArgument.characters : PlacelessArgument → List Char
  | (some name, value) => name.toList ++ '=' :: value.text.toList
  | (none, value) => value.text.toList

def labelCharacters : Option String → List Char
  | some name => name.toList ++ [':', ' ']
  | none => []

mutual
def Outline.characters : Outline → List Char
  | .reference name arguments typeArguments =>
      name.toList ++ (bracketed '<' '>' typeArguments.items ++
        bracketed '(' ')' (arguments.map PlacelessArgument.characters))

def Outlines.items : Outlines → List (List Char)
  | .nil => []
  | .cons label outline rest => (labelCharacters label ++ outline.characters) :: rest.items
end

theorem intercalate_eq (item : List Char) (rest : List (List Char)) :
    [',', ' '].intercalate (item :: rest) = item ++ following rest := by
  induction rest generalizing item with
  | nil => simp [following]
  | cons next rest induction =>
      rw [List.intercalate_cons_cons, induction]
      simp [following]

theorem toList_bracketed (opening closing : Char) (texts : List String) :
    (if texts.isEmpty then ""
      else String.singleton opening ++ ", ".intercalate texts ++ String.singleton closing).toList =
      bracketed opening closing (texts.map String.toList) := by
  cases texts with
  | nil => rfl
  | cons text rest =>
      rw [if_neg (by simp), String.toList_append, String.toList_append, String.toList_intercalate,
        List.map_cons]
      have separator : ", ".toList = [',', ' '] := by decide
      rw [separator, intercalate_eq]
      simp [bracketed]

theorem Argument.toList_text (argument : Argument) :
    argument.text.toList =
      PlacelessArgument.characters (argument.name, argument.value) := by
  obtain ⟨name, value, span⟩ := argument
  cases name with
  | none => rfl
  | some name => simp [text, PlacelessArgument.characters]

theorem Reference.toList_label (name : Option String) :
    (label name).toList = labelCharacters name := by
  cases name with
  | none => rfl
  | some name =>
      rw [label, String.toList_append]
      rfl

theorem Reference.isEmpty_typeArgumentTexts (arguments : List TypeArgument) :
    (typeArgumentTexts arguments).isEmpty = arguments.isEmpty := by
  cases arguments with
  | nil =>
      rw [typeArgumentTexts]
      rfl
  | cons argument rest =>
      obtain ⟨name, value, span⟩ := argument
      cases value <;> rw [typeArgumentTexts] <;> rfl

mutual
theorem Reference.toList_text :
    (reference : Reference) → reference.text.toList = reference.outline.characters
  | ⟨name, arguments, typeArguments, span, resolved⟩ => by
      have types := toList_bracketed '<' '>' (typeArgumentTexts typeArguments)
      have values := toList_bracketed '(' ')' (arguments.map Argument.text)
      rw [toList_typeArgumentTexts typeArguments, isEmpty_typeArgumentTexts] at types
      rw [List.map_map, List.isEmpty_map] at values
      rw [outline, Outline.characters, List.map_map, ← types]
      have argumentCharacters : PlacelessArgument.characters ∘
          (fun argument : Argument => (argument.name, argument.value)) =
          String.toList ∘ Argument.text :=
        funext fun argument => (Argument.toList_text argument).symm
      rw [argumentCharacters, ← values, text, String.toList_append, String.toList_append,
        List.append_assoc]
      rfl

theorem Reference.toList_typeArgumentTexts : (arguments : List TypeArgument) →
    (typeArgumentTexts arguments).map String.toList = (outlines arguments).items
  | [] => by rw [typeArgumentTexts, outlines, Outlines.items, List.map_nil]
  | ⟨name, .definition reference, span⟩ :: rest => by
      rw [typeArgumentTexts, outlines, Outlines.items, List.map_cons, String.toList_append,
        toList_label, toList_text reference, toList_typeArgumentTexts rest]
  | ⟨name, .parameter parameter, span⟩ :: rest => by
      rw [typeArgumentTexts, outlines, Outlines.items, List.map_cons, String.toList_append,
        toList_label, toList_typeArgumentTexts rest, Outline.characters, Outlines.items]
      simp [bracketed]
end

/-! ## Reading outlines back -/

def PlacelessArgument.IsPlain (argument : PlacelessArgument) : Prop :=
  (∀ name ∈ argument.1, IsWord name) ∧ argument.2.IsPlain

mutual
/-- All names are words, and those of parameters are no literals. -/
def Outline.IsPlain : Outline → Prop
  | .reference name arguments typeArguments =>
      IsWord name ∧ (∀ argument ∈ arguments, PlacelessArgument.IsPlain argument) ∧
        typeArguments.ArePlain

def Outlines.ArePlain : Outlines → Prop
  | .nil => True
  | .cons label outline rest =>
      (∀ name ∈ label, IsWord name) ∧ outline.IsPlain ∧ rest.ArePlain
end

section Reading

variable {leftRest rightRest : List Char}

theorem beginsWith_bracketed {characters : List Char} {opening : Char}
    (member : opening ∈ characters) (closing : Char) (items : List (List Char)) {rest : List Char}
    (begins : BeginsWith characters rest) :
    BeginsWith characters (bracketed opening closing items ++ rest) := by
  cases items with
  | nil => exact begins
  | cons item items => exact .cons _ member

theorem beginsWith_following {closing : Char} (closes : closing ∈ closings)
    (items : List (List Char)) (rest : List Char) :
    BeginsWith closings (following items ++ closing :: rest) := by
  cases items with
  | nil => exact .cons _ closes
  | cons item items => exact .cons _ (by decide)

theorem PlacelessArgument.characters_append_inj {left right : PlacelessArgument}
    (leftPlain : left.IsPlain) (rightPlain : right.IsPlain)
    (leftBegins : BeginsWith closings leftRest) (rightBegins : BeginsWith closings rightRest)
    (equal : left.characters ++ leftRest = right.characters ++ rightRest) :
    left = right ∧ leftRest = rightRest := by
  -- A name in front of a value cannot be taken for another value.
  have mixed : ∀ {name : String} {value other : Value} {rest otherRest : List Char},
      IsWord name → other.IsPlain → BeginsWith closings otherRest →
      name.toList ++ '=' :: (value.text.toList ++ rest) ≠ other.text.toList ++ otherRest := by
    intro name value other rest otherRest isWord otherPlain begins equal
    rcases other.string_or_isBare with ⟨text, rfl⟩ | bare
    · change _ = (Text.quoted text).toList ++ otherRest at equal
      simp only [Text.quoted, String.toList_ofList, List.cons_append] at equal
      cases start : name.toList with
      | nil =>
          rw [start] at equal
          exact absurd (List.cons.inj equal).1 (by decide)
      | cons character tail =>
          rw [start] at equal
          refine isWord character (start ▸ List.mem_cons_self) ?_
          rw [(List.cons.inj equal).1]
          decide
    · obtain ⟨-, same⟩ := word_append_inj isWord (Value.isWord_text otherPlain bare)
        (.cons _ (by decide)) (begins.mono closings_subset_delimiters) equal
      exact begins.ne_cons (by decide) same.symm
  obtain ⟨leftName, leftValue⟩ := left
  obtain ⟨rightName, rightValue⟩ := right
  cases leftName with
  | none =>
      cases rightName with
      | none =>
          obtain ⟨rfl, same⟩ := Value.text_append_inj leftPlain.2 rightPlain.2 leftBegins
            rightBegins equal
          exact ⟨rfl, same⟩
      | some name =>
          simp only [characters, List.append_assoc, List.cons_append] at equal
          exact absurd equal.symm (mixed (rightPlain.1 name rfl) leftPlain.2 leftBegins)
  | some name =>
      cases rightName with
      | none =>
          simp only [characters, List.append_assoc, List.cons_append] at equal
          exact absurd equal (mixed (leftPlain.1 name rfl) rightPlain.2 rightBegins)
      | some other =>
          simp only [characters, List.append_assoc, List.cons_append] at equal
          obtain ⟨sameName, remaining⟩ := word_append_inj (leftPlain.1 name rfl)
            (rightPlain.1 other rfl) (.cons _ (by decide)) (.cons _ (by decide)) equal
          obtain ⟨rfl, same⟩ := Value.text_append_inj leftPlain.2 rightPlain.2 leftBegins
            rightBegins (List.cons.inj remaining).2
          rw [String.toList_inj.mp sameName]
          exact ⟨rfl, same⟩

theorem following_append_inj {left right : List PlacelessArgument}
    (leftPlain : ∀ argument ∈ left, PlacelessArgument.IsPlain argument)
    (rightPlain : ∀ argument ∈ right, PlacelessArgument.IsPlain argument)
    (equal : following (left.map PlacelessArgument.characters) ++ ')' :: leftRest =
      following (right.map PlacelessArgument.characters) ++ ')' :: rightRest) :
    left = right ∧ leftRest = rightRest := by
  induction left generalizing right with
  | nil =>
      cases right with
      | nil => exact ⟨rfl, (List.cons.inj equal).2⟩
      | cons argument right => exact absurd (List.cons.inj equal).1 (by decide)
  | cons argument left induction =>
      cases right with
      | nil => exact absurd (List.cons.inj equal).1 (by decide)
      | cons other right =>
          simp only [List.map_cons, following_cons, List.cons_append, List.append_assoc,
            List.cons.injEq, true_and] at equal
          obtain ⟨rfl, remaining⟩ := PlacelessArgument.characters_append_inj
            (leftPlain _ List.mem_cons_self) (rightPlain _ List.mem_cons_self)
            (beginsWith_following (by decide) _ _) (beginsWith_following (by decide) _ _) equal
          obtain ⟨rfl, same⟩ := induction
            (fun other member => leftPlain other (List.mem_cons_of_mem _ member))
            (fun other member => rightPlain other (List.mem_cons_of_mem _ member)) remaining
          exact ⟨rfl, same⟩

theorem arguments_append_inj {left right : List PlacelessArgument}
    (leftPlain : ∀ argument ∈ left, PlacelessArgument.IsPlain argument)
    (rightPlain : ∀ argument ∈ right, PlacelessArgument.IsPlain argument)
    (leftBegins : BeginsWith closings leftRest) (rightBegins : BeginsWith closings rightRest)
    (equal : bracketed '(' ')' (left.map PlacelessArgument.characters) ++ leftRest =
      bracketed '(' ')' (right.map PlacelessArgument.characters) ++ rightRest) :
    left = right ∧ leftRest = rightRest := by
  cases left with
  | nil =>
      cases right with
      | nil => exact ⟨rfl, equal⟩
      | cons argument right => exact absurd equal (leftBegins.ne_cons (by decide))
  | cons argument left =>
      cases right with
      | nil => exact absurd equal.symm (rightBegins.ne_cons (by decide))
      | cons other right =>
          exact following_append_inj leftPlain rightPlain (following_of_bracketed equal)

/-- What may stand after the name that an outline begins with. -/
def nameEndings : List Char := ['<', '(', '>', ')', ',']

theorem closings_subset_nameEndings : ∀ character ∈ closings, character ∈ nameEndings := by
  simp [closings, nameEndings]

theorem nameEndings_subset_delimiters : ∀ character ∈ nameEndings, character ∈ delimiters := by
  simp [nameEndings, delimiters]

theorem beginsWith_afterName (types values : List (List Char)) {rest : List Char}
    (begins : BeginsWith closings rest) :
    BeginsWith nameEndings (bracketed '<' '>' types ++ (bracketed '(' ')' values ++ rest)) :=
  beginsWith_bracketed (by decide) _ _ (beginsWith_bracketed (by decide) _ _
    (begins.mono closings_subset_nameEndings))

theorem labelled_append_inj {leftLabel rightLabel : Option String} {left right : Outline}
    (leftWord : ∀ name ∈ leftLabel, IsWord name) (rightWord : ∀ name ∈ rightLabel, IsWord name)
    (leftPlain : left.IsPlain) (rightPlain : right.IsPlain)
    (leftBegins : BeginsWith closings leftRest) (rightBegins : BeginsWith closings rightRest)
    (reads : left.characters ++ leftRest = right.characters ++ rightRest →
      left = right ∧ leftRest = rightRest)
    (equal : labelCharacters leftLabel ++ (left.characters ++ leftRest) =
      labelCharacters rightLabel ++ (right.characters ++ rightRest)) :
    leftLabel = rightLabel ∧ left = right ∧ leftRest = rightRest := by
  -- A label cannot be taken for the name of the reference itself.
  have mixed : ∀ {name : String} {outline : Outline} {rest other : List Char}, IsWord name →
      outline.IsPlain → BeginsWith closings rest →
      name.toList ++ ':' :: other ≠ outline.characters ++ rest := by
    intro name outline rest other isWord plain begins equal
    obtain ⟨outlineName, arguments, typeArguments⟩ := outline
    rw [Outline.characters, List.append_assoc, List.append_assoc] at equal
    rw [Outline.IsPlain] at plain
    have ending := beginsWith_afterName typeArguments.items
      (arguments.map PlacelessArgument.characters) begins
    obtain ⟨-, same⟩ := word_append_inj isWord plain.1 (.cons _ (by decide))
      (ending.mono nameEndings_subset_delimiters) equal
    exact ending.ne_cons (by decide) same.symm
  cases leftLabel with
  | none =>
      cases rightLabel with
      | none =>
          obtain ⟨rfl, same⟩ := reads equal
          exact ⟨rfl, rfl, same⟩
      | some name =>
          simp only [labelCharacters, List.append_assoc, List.cons_append] at equal
          exact absurd equal.symm (mixed (rightWord name rfl) leftPlain leftBegins)
  | some name =>
      cases rightLabel with
      | none =>
          simp only [labelCharacters, List.append_assoc, List.cons_append] at equal
          exact absurd equal (mixed (leftWord name rfl) rightPlain rightBegins)
      | some other =>
          simp only [labelCharacters, List.append_assoc, List.cons_append] at equal
          obtain ⟨sameName, remaining⟩ := word_append_inj (leftWord name rfl)
            (rightWord other rfl) (.cons _ (by decide)) (.cons _ (by decide)) equal
          obtain ⟨rfl, same⟩ := reads (by simpa using remaining)
          exact ⟨congrArg some (String.toList_inj.mp sameName), rfl, same⟩

mutual
/-- An outline is told apart from what follows it, and from any other outline. -/
theorem Outline.characters_append_inj : (left right : Outline) → {leftRest rightRest : List Char} →
    left.IsPlain → right.IsPlain → BeginsWith closings leftRest →
    BeginsWith closings rightRest →
    left.characters ++ leftRest = right.characters ++ rightRest →
    left = right ∧ leftRest = rightRest
  | .reference leftName leftArguments leftTypes, .reference rightName rightArguments rightTypes,
      leftRest, rightRest, leftPlain, rightPlain, leftBegins, rightBegins, equal => by
      rw [Outline.IsPlain] at leftPlain rightPlain
      rw [Outline.characters, Outline.characters, List.append_assoc, List.append_assoc,
        List.append_assoc, List.append_assoc] at equal
      obtain ⟨sameName, afterName⟩ := word_append_inj leftPlain.1 rightPlain.1
        ((beginsWith_afterName _ _ leftBegins).mono nameEndings_subset_delimiters)
        ((beginsWith_afterName _ _ rightBegins).mono nameEndings_subset_delimiters) equal
      have ending : ∀ (arguments : List PlacelessArgument) {rest : List Char},
          BeginsWith closings rest → BeginsWith ('(' :: closings)
            (bracketed '(' ')' (arguments.map PlacelessArgument.characters) ++ rest) :=
        fun _ _ begins => beginsWith_bracketed List.mem_cons_self _ _
          (begins.mono fun _ => List.mem_cons_of_mem _)
      have types : leftTypes = rightTypes ∧
          bracketed '(' ')' (leftArguments.map PlacelessArgument.characters) ++ leftRest =
            bracketed '(' ')' (rightArguments.map PlacelessArgument.characters) ++ rightRest := by
        cases leftTypes with
        | nil =>
            cases rightTypes with
            | nil => exact ⟨rfl, afterName⟩
            | cons label outline rest =>
                exact absurd afterName ((ending leftArguments leftBegins).ne_cons (by decide))
        | cons leftLabel leftOutline leftOthers =>
            cases rightTypes with
            | nil =>
                exact absurd afterName.symm
                  ((ending rightArguments rightBegins).ne_cons (by decide))
            | cons rightLabel rightOutline rightOthers =>
                exact Outlines.following_append_inj _ _ leftPlain.2.2 rightPlain.2.2
                  (following_of_bracketed afterName)
      obtain ⟨rfl, afterTypes⟩ := types
      obtain ⟨rfl, same⟩ := arguments_append_inj leftPlain.2.1 rightPlain.2.1 leftBegins
        rightBegins afterTypes
      rw [String.toList_inj.mp sameName]
      exact ⟨rfl, same⟩

theorem Outlines.following_append_inj : (left right : Outlines) →
    {leftRest rightRest : List Char} → left.ArePlain → right.ArePlain →
    following left.items ++ '>' :: leftRest = following right.items ++ '>' :: rightRest →
    left = right ∧ leftRest = rightRest
  | .nil, .nil, _, _, _, _, equal => ⟨rfl, (List.cons.inj equal).2⟩
  | .nil, .cons _ _ _, _, _, _, _, equal => absurd (List.cons.inj equal).1 (by decide)
  | .cons _ _ _, .nil, _, _, _, _, equal => absurd (List.cons.inj equal).1 (by decide)
  | .cons leftLabel left leftOthers, .cons rightLabel right rightOthers, leftRest, rightRest,
      leftPlain, rightPlain, equal => by
      obtain ⟨leftWord, leftOutlinePlain, leftOthersPlain⟩ := leftPlain
      obtain ⟨rightWord, rightOutlinePlain, rightOthersPlain⟩ := rightPlain
      simp only [Outlines.items, following_cons, List.cons_append, List.append_assoc,
        List.cons.injEq, true_and] at equal
      obtain ⟨rfl, rfl, remaining⟩ := labelled_append_inj leftWord rightWord
        leftOutlinePlain rightOutlinePlain
        (beginsWith_following (by decide) _ _) (beginsWith_following (by decide) _ _)
        (Outline.characters_append_inj left right leftOutlinePlain rightOutlinePlain
          (beginsWith_following (by decide) _ _) (beginsWith_following (by decide) _ _)) equal
      obtain ⟨rfl, same⟩ := Outlines.following_append_inj leftOthers rightOthers
        leftOthersPlain rightOthersPlain remaining
      exact ⟨rfl, same⟩
end

end Reading

namespace Reference

def IsPlain (reference : Reference) : Prop :=
  reference.outline.IsPlain

/-- References that are written with words are printed alike just if their outlines are the
same. -/
theorem text_eq_iff {left right : Reference} (leftPlain : left.IsPlain)
    (rightPlain : right.IsPlain) : left.text = right.text ↔ left.outline = right.outline := by
  rw [← String.toList_inj, toList_text, toList_text]
  constructor
  · intro equal
    exact (Outline.characters_append_inj left.outline right.outline leftPlain rightPlain .nil .nil
      (by simpa using equal)).1
  · exact congrArg Outline.characters

end Reference

end Adl
