import Adl.Reference.Qualification

namespace Adl

/-! How deeply references are nested and which values they hold. Full names do not nest them
deeper and put no value into them. -/

/-- How deeply a type argument nests the reference that holds it. -/
def TypeArgument.nesting (argument : TypeArgument) : Nat :=
  match argument.value with
  | .definition reference => reference.nesting + 1
  | .parameter _ => 0

theorem TypeArgument.nesting_of_definition {argument : TypeArgument} {reference : Reference}
    (isDefinition : argument.value = .definition reference) :
    argument.nesting = reference.nesting + 1 := by
  rw [nesting, isDefinition]

namespace Reference

/-! The values of the arguments, at every depth. -/

mutual
def values : Reference → List Value
  | ⟨_, arguments, typeArguments, _, _⟩ =>
      arguments.map (·.value) ++ typeArgumentValues typeArguments

def typeArgumentValues : List TypeArgument → List Value
  | [] => []
  | ⟨_, .definition reference, _⟩ :: rest => reference.values ++ typeArgumentValues rest
  | ⟨_, .parameter _, _⟩ :: rest => typeArgumentValues rest
end

end Reference

def TypeArgument.values (argument : TypeArgument) : List Value :=
  match argument.value with
  | .definition reference => reference.values
  | .parameter _ => []

theorem TypeArgument.values_of_definition {argument : TypeArgument} {reference : Reference}
    (isDefinition : argument.value = .definition reference) :
    argument.values = reference.values := by
  rw [values, isDefinition]

/-- A type argument nests no deeper than given and holds allowed values only. -/
structure TypeArgument.IsWithin (depth : Nat) (Allowed : Value → Prop) (argument : TypeArgument) :
    Prop where
  nested : argument.nesting ≤ depth
  values : ∀ value ∈ argument.values, Allowed value

namespace Reference

theorem nesting_eq (reference : Reference) :
    reference.nesting = typeArgumentNesting reference.typeArguments := by
  cases reference
  rw [nesting]

theorem values_eq (reference : Reference) :
    reference.values =
      reference.arguments.map (·.value) ++ typeArgumentValues reference.typeArguments := by
  cases reference
  rw [values]

theorem typeArgumentNesting_le_iff {arguments : List TypeArgument} {depth : Nat} :
    typeArgumentNesting arguments ≤ depth ↔ ∀ argument ∈ arguments, argument.nesting ≤ depth := by
  induction arguments with
  | nil => simp [typeArgumentNesting]
  | cons argument rest induction =>
      obtain ⟨name, value, span⟩ := argument
      rw [List.forall_mem_cons, ← induction]
      cases value with
      | definition reference => exact Nat.max_le
      | parameter name => simp [typeArgumentNesting, TypeArgument.nesting]

theorem typeArgumentValues_eq (arguments : List TypeArgument) :
    typeArgumentValues arguments = arguments.flatMap TypeArgument.values := by
  induction arguments with
  | nil => rfl
  | cons argument rest induction =>
      obtain ⟨name, value, span⟩ := argument
      rw [List.flatMap_cons, ← induction]
      cases value with
      | definition reference => rfl
      | parameter name => rfl

theorem nesting_le_iff {reference : Reference} {depth : Nat} :
    reference.nesting ≤ depth ↔ ∀ argument ∈ reference.typeArguments, argument.nesting ≤ depth := by
  rw [nesting_eq, typeArgumentNesting_le_iff]

mutual
theorem values_clearResolution : (reference : Reference) →
    reference.clearResolution.values = reference.values
  | ⟨_, _, typeArguments, _, _⟩ => by
      simp only [clearResolution, values, typeArgumentValues_clear typeArguments]

theorem typeArgumentValues_clear : (arguments : List TypeArgument) →
    typeArgumentValues (clearTypeArguments arguments) = typeArgumentValues arguments
  | [] => by simp only [clearTypeArguments]
  | ⟨_, .definition reference, _⟩ :: rest => by
      simp only [clearTypeArguments, typeArgumentValues, values_clearResolution reference,
        typeArgumentValues_clear rest]
  | ⟨_, .parameter _, _⟩ :: rest => by
      simp only [clearTypeArguments, typeArgumentValues, typeArgumentValues_clear rest]
end

/-- What a resolver for references of the depth can be given, and what it can make of it. -/
structure IsWithin (depth : Nat) (Allowed : Value → Prop) (reference : Reference) : Prop where
  nested : reference.nesting ≤ depth
  values : ∀ value ∈ reference.values, Allowed value

variable {depth : Nat} {Allowed : Value → Prop} {reference changed : Reference}

theorem isWithin_self (reference : Reference) :
    reference.IsWithin reference.nesting fun _ => True :=
  ⟨Nat.le_refl _, fun _ _ => trivial⟩

theorem isWithin_iff :
    reference.IsWithin depth Allowed ↔
      (∀ argument ∈ reference.arguments, Allowed argument.value) ∧
        ∀ argument ∈ reference.typeArguments, argument.IsWithin depth Allowed := by
  constructor
  · rintro ⟨nested, values⟩
    simp only [values_eq, typeArgumentValues_eq, List.forall_mem_append, List.forall_mem_map,
      List.forall_mem_flatMap] at values
    exact ⟨values.1, fun argument member =>
      ⟨nesting_le_iff.mp nested argument member, values.2 argument member⟩⟩
  · rintro ⟨arguments, typeArguments⟩
    refine ⟨nesting_le_iff.mpr fun argument member => (typeArguments argument member).nested, ?_⟩
    simp only [values_eq, typeArgumentValues_eq, List.forall_mem_append, List.forall_mem_map,
      List.forall_mem_flatMap]
    exact ⟨arguments, fun argument member => (typeArguments argument member).values⟩

/-- Only the arguments matter. -/
theorem IsWithin.congr (within : reference.IsWithin depth Allowed)
    (arguments : changed.arguments.map (·.value) = reference.arguments.map (·.value))
    (typeArguments : changed.typeArguments = reference.typeArguments) :
    changed.IsWithin depth Allowed where
  nested := by
    rw [nesting_eq, typeArguments, ← nesting_eq]
    exact within.nested
  values := by
    rw [values_eq, arguments, typeArguments, ← values_eq]
    exact within.values

end Reference

namespace Qualification

variable (isKnown : String → Bool) (scope : Definition)

mutual
theorem nesting_qualify : (reference : Reference) →
    (qualify isKnown scope reference).nesting ≤ reference.nesting
  | ⟨_, _, typeArguments, _, _⟩ => by
      simp only [qualify, Reference.nesting]
      exact nesting_qualifyTypeArguments typeArguments

theorem nesting_qualifyTypeArguments : (arguments : List TypeArgument) →
    Reference.typeArgumentNesting (qualifyTypeArguments isKnown scope arguments) ≤
      Reference.typeArgumentNesting arguments
  | [] => by simp [qualifyTypeArguments]
  | ⟨name, .definition reference, span⟩ :: rest => by
      have first := nesting_qualify reference
      have others := nesting_qualifyTypeArguments rest
      simp only [qualifyTypeArguments]
      split
      · simp only [Reference.typeArgumentNesting]
        exact Nat.le_trans others (Nat.le_max_right _ _)
      · simp only [Reference.typeArgumentNesting]
        exact Nat.max_le.mpr ⟨Nat.le_trans (Nat.succ_le_succ first) (Nat.le_max_left _ _),
          Nat.le_trans others (Nat.le_max_right _ _)⟩
  | ⟨name, .parameter parameter, span⟩ :: rest => by
      have others := nesting_qualifyTypeArguments rest
      simpa only [qualifyTypeArguments, Reference.typeArgumentNesting] using others
end

mutual
theorem values_qualify : (reference : Reference) →
    (qualify isKnown scope reference).values ⊆ reference.values
  | ⟨_, _, typeArguments, _, _⟩ => by
      simp only [qualify, Reference.values]
      exact List.append_subset.mpr ⟨List.subset_append_left _ _,
        List.Subset.trans (values_qualifyTypeArguments typeArguments)
          (List.subset_append_right _ _)⟩

theorem values_qualifyTypeArguments : (arguments : List TypeArgument) →
    Reference.typeArgumentValues (qualifyTypeArguments isKnown scope arguments) ⊆
      Reference.typeArgumentValues arguments
  | [] => by simp [qualifyTypeArguments]
  | ⟨name, .definition reference, span⟩ :: rest => by
      have first := values_qualify reference
      have others := values_qualifyTypeArguments rest
      simp only [qualifyTypeArguments]
      split
      · exact List.Subset.trans others (List.subset_append_right _ _)
      · exact List.append_subset.mpr
          ⟨List.Subset.trans first (List.subset_append_left _ _),
            List.Subset.trans others (List.subset_append_right _ _)⟩
  | ⟨name, .parameter parameter, span⟩ :: rest => by
      have others := values_qualifyTypeArguments rest
      simpa only [qualifyTypeArguments, Reference.typeArgumentValues] using others
end

theorem isWithin_qualify {depth : Nat} {Allowed : Value → Prop} {reference : Reference}
    (within : reference.IsWithin depth Allowed) :
    (qualify isKnown scope reference).IsWithin depth Allowed where
  nested := Nat.le_trans (nesting_qualify isKnown scope reference) within.nested
  values value member := within.values value (values_qualify isKnown scope reference member)

end Qualification

end Adl
