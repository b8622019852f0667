import Adl.Proofs.Reference.Nesting
import Adl.Proofs.Template.Mentions

namespace Adl

/-! References that spell the name of what they designate. Where the printed form shows no value
arguments, no labels and only full names, it is the name of the definition, or of the instance. -/

/-- What may stand after a name. -/
def nameEnds : List Char := ['<', '>', ',']

/-- A name begins after the characters. -/
def EndsBeforeName (before : List Char) : Prop :=
  before.getLast?.all (fun character => character == '<' || character == ' ') = true

instance (before : List Char) : Decidable (EndsBeforeName before) :=
  inferInstanceAs (Decidable (_ = true))

/-- Characters in which every name is full, and nothing but names is told. -/
structure SpellsName (characters : List Char) : Prop where
  unlabelled : ':' ∉ characters
  bare : '(' ∉ characters
  full : ∀ before rest, before ++ rest = characters → EndsBeforeName before →
    '.' ∈ rest.takeWhile fun character => !nameEnds.contains character

theorem spellsName_iff {characters : List Char} :
    SpellsName characters ↔ ':' ∉ characters ∧ '(' ∉ characters ∧
      ∀ position ∈ List.range (characters.length + 1),
        EndsBeforeName (characters.take position) →
          '.' ∈ (characters.drop position).takeWhile fun character =>
            !nameEnds.contains character := by
  constructor
  · intro spells
    exact ⟨spells.unlabelled, spells.bare, fun position _ =>
      spells.full _ _ (List.take_append_drop position characters)⟩
  · rintro ⟨unlabelled, bare, full⟩
    refine ⟨unlabelled, bare, ?_⟩
    rintro before rest rfl begins
    have within : before.length < (before ++ rest).length + 1 := by
      rw [List.length_append]
      omega
    have found := full before.length (List.mem_range.mpr within)
    rw [List.take_left, List.drop_left] at found
    exact found begins

instance (characters : List Char) : Decidable (SpellsName characters) :=
  decidable_of_iff _ spellsName_iff.symm

namespace SpellsName

variable {before name after : List Char}

theorem endsBeforeName_append (ends : EndsBeforeName before) (inner : EndsBeforeName name) :
    EndsBeforeName (before ++ name) := by
  unfold EndsBeforeName at *
  rw [List.getLast?_append]
  cases last : name.getLast? with
  | none => exact ends
  | some character => rwa [last] at inner

theorem mem_takeWhile_of_append {test : Char → Bool} {character : Char}
    (stops : ∀ other rest, after = other :: rest → test other = false)
    (member : character ∈ (name ++ after).takeWhile test) : character ∈ name.takeWhile test := by
  rw [List.takeWhile_append] at member
  split at member
  · rename_i whole
    have stopped : after.takeWhile test = [] := by
      cases after with
      | nil => rfl
      | cons other rest => exact List.takeWhile_cons_of_neg (by simp [stops other rest rfl])
    rw [stopped, List.append_nil] at member
    rwa [(List.takeWhile_prefix test).eq_of_length whole]
  · exact member

/-- What stands between the beginning and the end of a name. -/
theorem between (spells : SpellsName (before ++ (name ++ after))) (begins : EndsBeforeName before)
    (ends : BeginsWith nameEnds after) : SpellsName name where
  unlabelled member := spells.unlabelled
    (List.mem_append_right _ (List.mem_append_left _ member))
  bare member := spells.bare (List.mem_append_right _ (List.mem_append_left _ member))
  full := by
    rintro inner rest rfl beginsInner
    have found := spells.full (before ++ inner) (rest ++ after) (by simp)
      (endsBeforeName_append begins beginsInner)
    refine mem_takeWhile_of_append (fun other following equal => ?_) found
    simpa using ends other following equal

/-- The first name is full. -/
theorem dot_mem (spells : SpellsName (name ++ after)) (ends : BeginsWith nameEnds after) :
    '.' ∈ name := by
  have begins : EndsBeforeName [] := rfl
  have own : SpellsName name := between spells begins ends
  exact (List.takeWhile_prefix _).subset (own.full [] name rfl begins)

/-- Items that follow one another. -/
theorem items {items : List (List Char)} (spells : SpellsName (before ++ (following items ++ after)))
    (ends : BeginsWith nameEnds after) : ∀ item ∈ items, SpellsName item := by
  induction items generalizing before with
  | nil => exact fun _ member => nomatch member
  | cons item rest induction =>
      rw [following_cons] at spells
      have later : BeginsWith nameEnds (following rest ++ after) := by
        cases rest with
        | nil => exact ends
        | cons next rest => exact .cons _ (by decide)
      have separated : (before ++ [',', ' ']) ++ (item ++ (following rest ++ after)) =
          before ++ (',' :: ' ' :: (item ++ following rest) ++ after) := by
        simp
      have further : (before ++ (',' :: ' ' :: item)) ++ (following rest ++ after) =
          before ++ (',' :: ' ' :: (item ++ following rest) ++ after) := by
        simp
      rw [← separated] at spells
      refine List.forall_mem_cons.mpr ⟨spells.between (by simp [EndsBeforeName]) later, ?_⟩
      rw [separated, ← further] at spells
      exact induction spells

theorem bracketed {items : List (List Char)} (spells : SpellsName (name ++ bracketed '<' '>' items)) :
    ∀ item ∈ items, SpellsName item := by
  cases items with
  | nil => exact fun _ member => nomatch member
  | cons item rest =>
      have ends : BeginsWith nameEnds ['>'] := .cons _ (by decide)
      have later : BeginsWith nameEnds (following rest ++ ['>']) := by
        cases rest with
        | nil => exact ends
        | cons next rest => exact .cons _ (by decide)
      have opened : (name ++ ['<']) ++ (item ++ (following rest ++ ['>'])) =
          name ++ ('<' :: (item ++ (following rest ++ ['>']))) := by
        simp
      have further : (name ++ '<' :: item) ++ (following rest ++ ['>']) =
          name ++ ('<' :: (item ++ (following rest ++ ['>']))) := by
        simp
      change SpellsName (name ++ ('<' :: (item ++ (following rest ++ ['>'])))) at spells
      rw [← opened] at spells
      refine List.forall_mem_cons.mpr ⟨spells.between (by simp [EndsBeforeName]) later, ?_⟩
      rw [opened, ← further] at spells
      exact spells.items ends

end SpellsName

/-! ## References -/

def TypeArgumentValue.text : TypeArgumentValue → String
  | .definition reference => reference.text
  | .parameter name => name

namespace Reference

theorem typeArgumentTexts_eq (arguments : List TypeArgument) :
    typeArgumentTexts arguments =
      arguments.map fun argument => label argument.name ++ argument.value.text := by
  induction arguments with
  | nil => rw [typeArgumentTexts, List.map_nil]
  | cons argument rest induction =>
      obtain ⟨name, value, span⟩ := argument
      rw [List.map_cons, ← induction]
      cases value <;> rw [typeArgumentTexts] <;> rfl

theorem characters_text (reference : Reference) :
    reference.text.toList = reference.name.toList ++
      (bracketed '<' '>' ((typeArgumentTexts reference.typeArguments).map String.toList) ++
        bracketed '(' ')' (reference.arguments.map fun argument => argument.text.toList)) := by
  obtain ⟨name, arguments, typeArguments, span, resolved⟩ := reference
  rw [toList_text, outline, Outline.characters, ← toList_typeArgumentTexts, List.map_map]
  congr 3
  exact List.map_congr_left fun argument _ => argument.toList_text.symm

/-- All names in the reference are full, and it has no value arguments and no labels. -/
theorem full_of_spells {reference : Reference} (spells : SpellsName reference.text.toList) :
    Text.hasDot reference.name = true ∧ reference.arguments = [] ∧
      ∀ argument ∈ reference.typeArguments,
        argument.name = none ∧ SpellsName argument.value.text.toList := by
  rw [characters_text] at spells
  have noArguments : reference.arguments = [] := by
    cases arguments : reference.arguments with
    | nil => rfl
    | cons argument rest =>
        refine absurd ?_ spells.bare
        rw [arguments]
        simp [bracketed]
  rw [noArguments, List.map_nil, show bracketed '(' ')' [] = [] from rfl, List.append_nil] at spells
  have ends : BeginsWith nameEnds
      (bracketed '<' '>' ((typeArgumentTexts reference.typeArguments).map String.toList)) := by
    have opens : '<' ∈ nameEnds := List.mem_cons_self
    have begins := beginsWith_bracketed opens '>'
      ((typeArgumentTexts reference.typeArguments).map String.toList) .nil
    rwa [List.append_nil] at begins
  refine ⟨?_, noArguments, fun argument member => ?_⟩
  · rw [Text.hasDot, List.contains_iff_mem]
    exact spells.dot_mem ends
  · have spelled : SpellsName (label argument.name ++ argument.value.text).toList := by
      refine spells.bracketed _ (List.mem_map_of_mem ?_)
      rw [typeArgumentTexts_eq]
      exact List.mem_map.mpr ⟨argument, member, rfl⟩
    cases named : argument.name with
    | none =>
        rw [named] at spelled
        exact ⟨rfl, by simpa [label] using spelled⟩
    | some name =>
        refine absurd ?_ spelled.unlabelled
        rw [named]
        simp [label]

/-- What the reference spells is its name with the names that its type arguments spell. -/
theorem text_of_spells {reference : Reference} (spells : SpellsName reference.text.toList) :
    reference.text = if reference.typeArguments.isEmpty then reference.name
      else reference.name ++ "<" ++
        ", ".intercalate (reference.typeArguments.map (·.value.text)) ++ ">" := by
  obtain ⟨-, noArguments, unlabelled⟩ := full_of_spells spells
  have texts : typeArgumentTexts reference.typeArguments =
      reference.typeArguments.map (·.value.text) := by
    rw [typeArgumentTexts_eq]
    refine List.map_congr_left fun argument member => ?_
    rw [(unlabelled argument member).1]
    exact String.empty_append
  obtain ⟨name, arguments, typeArguments, span, resolved⟩ := reference
  dsimp only at noArguments texts ⊢
  rw [text, texts, noArguments]
  split
  · simp
  · simp [String.append_assoc]

mutual
theorem values_of_spells : (reference : Reference) → SpellsName reference.text.toList →
    reference.values = []
  | ⟨name, arguments, typeArguments, span, resolved⟩, spells => by
      obtain ⟨-, noArguments, spelled⟩ := full_of_spells spells
      dsimp only at noArguments spelled
      rw [values, noArguments, List.map_nil, List.nil_append]
      exact typeArgumentValues_of_spell typeArguments fun argument member =>
        (spelled argument member).2

theorem typeArgumentValues_of_spell : (arguments : List TypeArgument) →
    (∀ argument ∈ arguments, SpellsName argument.value.text.toList) →
    typeArgumentValues arguments = []
  | [], _ => by rw [typeArgumentValues]
  | ⟨name, .definition reference, span⟩ :: rest, spelled => by
      obtain ⟨first, others⟩ := List.forall_mem_cons.mp spelled
      rw [typeArgumentValues, values_of_spells reference first,
        typeArgumentValues_of_spell rest others, List.append_nil]
  | ⟨name, .parameter parameter, span⟩ :: rest, spelled => by
      rw [typeArgumentValues]
      exact typeArgumentValues_of_spell rest (List.forall_mem_cons.mp spelled).2
end

variable (isKnown : String → Bool) (scope : Definition)

mutual
/-- Full names stay as they are. -/
theorem text_qualify : (reference : Reference) → SpellsName reference.text.toList →
    (Qualification.qualify isKnown scope reference).text = reference.text
  | ⟨name, arguments, typeArguments, span, resolved⟩, spells => by
      obtain ⟨full, -, spelled⟩ := full_of_spells spells
      dsimp only at full spelled
      have texts := typeArgumentTexts_qualify typeArguments fun argument member =>
        (spelled argument member).2
      have empty := congrArg List.isEmpty texts
      rw [isEmpty_typeArgumentTexts, isEmpty_typeArgumentTexts] at empty
      rw [Qualification.qualify, Qualification.qualifyName, if_pos full, text, text, texts, empty]

theorem typeArgumentTexts_qualify : (arguments : List TypeArgument) →
    (∀ argument ∈ arguments, SpellsName argument.value.text.toList) →
    typeArgumentTexts (Qualification.qualifyTypeArguments isKnown scope arguments) =
      typeArgumentTexts arguments
  | [], _ => by rw [Qualification.qualifyTypeArguments]
  | ⟨name, .definition reference, span⟩ :: rest, spelled => by
      obtain ⟨first, others⟩ := List.forall_mem_cons.mp spelled
      rw [Qualification.qualifyTypeArguments]
      cases named : Qualification.namedParameter? scope reference with
      | some parameter =>
          obtain ⟨isName, noArguments, noTypeArguments, -⟩ := of_namedParameter? named
          have bare : reference.text = parameter := by
            rw [text_of_spells first, noTypeArguments]
            exact isName
          dsimp only
          rw [typeArgumentTexts, typeArgumentTexts, bare, typeArgumentTexts_qualify rest others]
      | none =>
          dsimp only
          rw [typeArgumentTexts, typeArgumentTexts, text_qualify reference first,
            typeArgumentTexts_qualify rest others]
  | ⟨name, .parameter parameter, span⟩ :: rest, spelled => by
      rw [Qualification.qualifyTypeArguments, typeArgumentTexts, typeArgumentTexts,
        typeArgumentTexts_qualify rest (List.forall_mem_cons.mp spelled).2]
end

end Reference

end Adl
