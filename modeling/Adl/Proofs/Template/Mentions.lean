import Adl.Proofs.Definition.ReferenceText
import Adl.Reference.Qualification
import Adl.Template.Instance

namespace Adl

/-! Type parameters in references. A type argument that is a bare name may stand for a type
parameter of the definition that holds the reference, but only one that is written as a type
parameter is replaced in an instance. -/

namespace Reference

mutual
/-- The printed form does not show what was resolved. -/
theorem outline_clearResolution :
    (reference : Reference) → reference.clearResolution.outline = reference.outline
  | ⟨name, arguments, typeArguments, span, resolved⟩ => by
      rw [clearResolution, outline, outline, outlines_clearTypeArguments typeArguments]

theorem outlines_clearTypeArguments : (arguments : List TypeArgument) →
    outlines (clearTypeArguments arguments) = outlines arguments
  | [] => by rw [clearTypeArguments]
  | ⟨name, .definition reference, span⟩ :: rest => by
      rw [clearTypeArguments, outlines, outlines, outline_clearResolution reference,
        outlines_clearTypeArguments rest]
  | ⟨name, .parameter parameter, span⟩ :: rest => by
      rw [clearTypeArguments, outlines, outlines, outlines_clearTypeArguments rest]
end

theorem text_clearResolution (reference : Reference) :
    reference.clearResolution.text = reference.text := by
  rw [← String.toList_inj, toList_text, toList_text, outline_clearResolution]

/-! ## Replaced type parameters -/

section Replaced

variable {before after : Context} {bindings : TypeBindings}

/-- Only the names of what is bound matter. -/
theorem boundValue_congr
    (same : ∀ parameter id, bindings.find? parameter = some (.definition id) →
      (after.definition id).name = (before.definition id).name)
    (parameter : String) (span : Span) :
    boundValue after bindings parameter span = boundValue before bindings parameter span := by
  unfold boundValue
  split
  · rename_i id bound
    rw [same parameter id bound]
  · rfl
  · rfl

mutual
theorem instantiate_congr
    (same : ∀ parameter id, bindings.find? parameter = some (.definition id) →
      (after.definition id).name = (before.definition id).name) :
    (reference : Reference) →
      reference.instantiate after bindings = reference.instantiate before bindings
  | ⟨name, arguments, typeArguments, span, resolved⟩ => by
      rw [instantiate, instantiate, instantiateTypeArguments_congr same typeArguments]

theorem instantiateTypeArguments_congr
    (same : ∀ parameter id, bindings.find? parameter = some (.definition id) →
      (after.definition id).name = (before.definition id).name) :
    (arguments : List TypeArgument) →
      instantiateTypeArguments after bindings arguments =
        instantiateTypeArguments before bindings arguments
  | [] => by rw [instantiateTypeArguments, instantiateTypeArguments]
  | ⟨name, .definition reference, span⟩ :: rest => by
      rw [instantiateTypeArguments, instantiateTypeArguments, instantiate_congr same reference,
        instantiateTypeArguments_congr same rest]
  | ⟨name, .parameter parameter, span⟩ :: rest => by
      rw [instantiateTypeArguments, instantiateTypeArguments, boundValue_congr same,
        instantiateTypeArguments_congr same rest]
end

end Replaced

/-! ## Hidden type parameters -/

section Hidden

variable (scope : Definition)

mutual
/-- The reference with each bare name of a type parameter written as the type parameter. -/
def formal : Reference → Reference
  | ⟨name, arguments, typeArguments, span, resolved⟩ =>
      ⟨name, arguments, formalTypeArguments typeArguments, span, resolved⟩

def formalTypeArguments : List TypeArgument → List TypeArgument
  | [] => []
  | ⟨name, .definition reference, span⟩ :: rest =>
      let value := match Qualification.namedParameter? scope reference with
        | some parameter => .parameter parameter
        | none => .definition (formal reference)
      ⟨name, value, span⟩ :: formalTypeArguments rest
  | ⟨name, .parameter parameter, span⟩ :: rest =>
      ⟨name, .parameter parameter, span⟩ :: formalTypeArguments rest
end

mutual
/-- Whether a type parameter is named like a definition, at any depth. -/
def hidesParameter : Reference → Bool
  | ⟨_, _, typeArguments, _, _⟩ => typeArgumentsHide typeArguments

def typeArgumentsHide : List TypeArgument → Bool
  | [] => false
  | ⟨_, .definition reference, _⟩ :: rest =>
      (Qualification.namedParameter? scope reference).isSome || hidesParameter reference ||
        typeArgumentsHide rest
  | ⟨_, .parameter _, _⟩ :: rest => typeArgumentsHide rest
end

variable {scope}

/-- The name of a hidden type parameter is all that there is of the reference. -/
theorem of_namedParameter? {reference : Reference} {parameter : String}
    (named : Qualification.namedParameter? scope reference = some parameter) :
    reference.name = parameter ∧ reference.arguments = [] ∧ reference.typeArguments = [] ∧
      scope.hasTypeParameter parameter = true := by
  unfold Qualification.namedParameter? at named
  split at named
  · rename_i bare
    cases named
    obtain ⟨empty, declared⟩ := Bool.and_eq_true_iff.mp bare
    obtain ⟨noArguments, noTypeArguments⟩ := Bool.and_eq_true_iff.mp empty
    exact ⟨rfl, List.isEmpty_iff.mp noArguments, List.isEmpty_iff.mp noTypeArguments, declared⟩
  · cases named

mutual
/-- Where nothing is hidden nothing has to be written differently. -/
theorem formal_eq_of_not_hides : (reference : Reference) →
    reference.hidesParameter scope = false → reference.formal scope = reference
  | ⟨name, arguments, typeArguments, span, resolved⟩, shown => by
      rw [hidesParameter] at shown
      rw [formal, formalTypeArguments_eq_of_not_hide typeArguments shown]

theorem formalTypeArguments_eq_of_not_hide : (arguments : List TypeArgument) →
    typeArgumentsHide scope arguments = false → formalTypeArguments scope arguments = arguments
  | [], _ => by rw [formalTypeArguments]
  | ⟨name, .definition reference, span⟩ :: rest, shown => by
      simp only [typeArgumentsHide, Bool.or_eq_false_iff] at shown
      obtain ⟨⟨unnamed, first⟩, others⟩ := shown
      have unnamed := Option.not_isSome_iff_eq_none.mp (Bool.eq_false_iff.mp unnamed)
      rw [formalTypeArguments, unnamed, formal_eq_of_not_hides reference first,
        formalTypeArguments_eq_of_not_hide rest others]
  | ⟨name, .parameter parameter, span⟩ :: rest, shown => by
      rw [typeArgumentsHide] at shown
      rw [formalTypeArguments, formalTypeArguments_eq_of_not_hide rest shown]
end

end Hidden

end Reference

end Adl
