import Adl.Proofs.Definition.ReferenceText
import Adl.Proofs.Loading.CacheCoherence

namespace Adl

open Step

/-! What the cache of references shows of itself. A reference that is found in it keeps
the form in which it was written; one that is not takes the form that the layers below
give it. -/

/-! ## Named arguments -/

namespace Arguments

variable {target : Definition} {scope : Option Definition} {context reached : Context}
  {reference form : Reference}

theorem named_of_not_relevant {argument : Argument}
    (irrelevant : isRelevant target argument = false) : argument.name.isSome = true := by
  cases present : argument.name with
  | none => simp [isRelevant, present] at irrelevant
  | some name => rfl

theorem named_of_relevant_named (target : Definition) {arguments : List Argument}
    (named : ∀ argument ∈ arguments.filter (isRelevant target), argument.name.isSome = true) :
    arguments.all (·.name.isSome) = true := by
  rw [List.all_eq_true]
  intro argument member
  cases relevant : isRelevant target argument with
  | true => exact named argument (List.mem_filter.mpr ⟨member, relevant⟩)
  | false => exact named_of_not_relevant relevant

theorem length_nameByPosition (parameters : List String) (arguments : List Argument) :
    (nameByPosition target parameters arguments).length = arguments.length := by
  induction arguments generalizing parameters with
  | nil => simp [nameByPosition]
  | cons argument rest induction =>
      cases parameters with
      | nil => rfl
      | cons parameter parameters =>
          rw [nameByPosition]
          split
          · exact congrArg Nat.succ (induction parameters)
          · exact congrArg Nat.succ (induction (parameter :: parameters))

/-- An argument that is for instances of the target is passed over. -/
theorem nameByPosition_cons {argument : Argument} (parameters : List String)
    (rest : List Argument) (irrelevant : isRelevant target argument = false) :
    nameByPosition target parameters (argument :: rest) =
      argument :: nameByPosition target parameters rest := by
  cases parameters with
  | nil => cases rest <;> rfl
  | cons parameter parameters => rw [nameByPosition, if_neg (by simp [irrelevant])]

/-- Where there are parameters for all relevant arguments every argument has a name. -/
theorem named_nameByPosition (parameters : List String) (arguments : List Argument)
    (enough : (arguments.filter (isRelevant target)).length ≤ parameters.length) :
    (nameByPosition target parameters arguments).all (·.name.isSome) = true := by
  induction arguments generalizing parameters with
  | nil => simp [nameByPosition]
  | cons argument rest induction =>
      cases parameters with
      | nil =>
          have none : (argument :: rest).filter (isRelevant target) = [] :=
            List.eq_nil_of_length_eq_zero (Nat.le_zero.mp enough)
          change (argument :: rest).all (·.name.isSome) = true
          refine named_of_relevant_named target fun other member => ?_
          rw [none] at member
          exact nomatch member
      | cons parameter parameters =>
          cases relevant : isRelevant target argument with
          | true =>
              rw [List.filter_cons_of_pos relevant, List.length_cons] at enough
              rw [nameByPosition, if_pos relevant, List.all_cons, Bool.and_eq_true]
              exact ⟨rfl, induction parameters (Nat.le_of_succ_le_succ enough)⟩
          | false =>
              rw [List.filter_cons_of_neg (by simp [relevant])] at enough
              rw [nameByPosition, if_neg (by simp [relevant]), List.all_cons, Bool.and_eq_true]
              exact ⟨named_of_not_relevant relevant, induction _ enough⟩

theorem count_le_of_no_positionProblem {span : Span} {count : Nat}
    (none : positionProblem? target span count = none) : count ≤ target.parameters.length := by
  unfold positionProblem? at none
  dsimp only at none
  rw [List.length_map] at none
  split at none
  · cases none
  · split at none
    · cases none
    · rename_i notMore
      exact Nat.le_of_not_lt notMore

/-- What an accepted reference looks like: its arguments have names, and stay as they are
where they had names before. -/
theorem ok_of_check
    (ends : check target scope (context, reference) = (.ok true, (reached, form))) :
    ∃ arguments, form = { reference with arguments } ∧
      arguments.length = reference.arguments.length ∧
      arguments.all (·.name.isSome) = true ∧
      (reference.hasNamedArguments = true → arguments = reference.arguments) := by
  obtain ⟨name, arguments, typeArguments, span, resolved⟩ := reference
  obtain ⟨_, _, drafted, ends⟩ := Step.ok_of_bind ends
  cases drafted
  dsimp only at ends ⊢
  have refused : ∀ diagnostics, (liftM (refuse diagnostics) : Revising Reference Bool)
      (context, ⟨name, arguments, typeArguments, span, resolved⟩) ≠
        (.ok true, (reached, form)) := by
    intro diagnostics ends
    obtain ⟨_, _, _, ends⟩ := Step.ok_of_bind (Drafting.ok_of_lift ends).2
    exact nomatch ends
  split at ends
  · split at ends
    · rename_i irrelevant
      cases ends
      refine ⟨arguments, rfl, rfl, named_of_relevant_named target ?_, fun _ => rfl⟩
      rw [List.isEmpty_iff.mp irrelevant]
      exact fun _ member => nomatch member
    · exact absurd ends (refused _)
  · split at ends
    · exact absurd ends (refused _)
    · rename_i relevant
      split at ends
      · rename_i unnamed
        cases noProblem : positionProblem? target span
            (arguments.filter (isRelevant target)).length with
        | some diagnostic =>
            rw [noProblem] at ends
            exact absurd ends (refused _)
        | none =>
          rw [noProblem] at ends
          obtain ⟨_, _, modified, ends⟩ := Step.ok_of_bind ends
          cases modified
          obtain ⟨rfl, -⟩ := Drafting.ok_of_lift ends
          refine ⟨_, rfl, length_nameByPosition _ _, named_nameByPosition _ _ ?_, fun named => ?_⟩
          · rw [List.length_map]
            exact count_le_of_no_positionProblem noProblem
          · obtain ⟨argument, member⟩ := List.exists_mem_of_ne_nil _
              (mt List.isEmpty_iff.mpr relevant)
            have without := List.all_eq_true.mp unnamed argument member
            have within := List.all_eq_true.mp named argument (List.mem_filter.mp member).1
            rw [Option.isNone_iff_eq_none.mp without] at within
            exact nomatch within
      · split at ends
        · exact nomatch ends
        · rename_i named
          cases problems : namedProblems target span (arguments.filter (isRelevant target)) with
          | cons diagnostic rest =>
            rw [problems] at ends
            exact absurd ends (refused _)
          | nil =>
            rw [problems] at ends
            obtain ⟨rfl, -⟩ := Drafting.ok_of_lift ends
            refine ⟨arguments, rfl, rfl, named_of_relevant_named target ?_, fun _ => rfl⟩
            intro argument member
            cases present : argument.name with
            | none => exact absurd (List.any_eq_true.mpr ⟨argument, member, by simp [present]⟩) named
            | some name => rfl

end Arguments

/-- Where a value is given the step has given it. -/
theorem Loading.ok_of_orRecorded {α : Type} {step : Loading α} {span : Span} {value : α}
    {context reached : Context}
    (ends : Loading.orRecorded step span context = (.ok (some value), reached)) :
    step context = (.ok value, reached) := by
  obtain ⟨result, middle, outcome, ends⟩ := Step.ok_of_bind ends
  simp only [Step.outcome] at outcome
  cases outcome
  rcases ran : step context with ⟨error | made, last⟩
  · rw [ran] at ends
    cases error with
    | fatal diagnostic =>
        obtain ⟨_, _, -, ends⟩ := Step.ok_of_bind ends
        cases ends
    | aborted => cases ends
    | internal error => cases ends
  · rw [ran] at ends
    cases ends
    rfl

namespace Resolver

variable {frontEnd : FrontEnd} {load : String → Loading DefinitionId} {inner nested : Resolver}
  {scope : Option DefinitionId} {context reached : Context} {reference form : Reference}
  {id : DefinitionId}

/-! ## The form that references are given -/

/-- How a reference with a full name is completed: its arguments have names in the end, and
further ones may have come from its type arguments. -/
structure Completes (reference form : Reference) : Prop where
  name : form.name = reference.name
  span : form.span = reference.span
  named : form.hasNamedArguments = true
  length : reference.arguments.length ≤ form.arguments.length
  arguments : reference.hasNamedArguments = true →
    form.arguments.length = reference.arguments.length → form.arguments = reference.arguments

/-- One reference is another apart from type arguments and decoration. -/
structure Resembles (reference form : Reference) : Prop where
  name : form.name = reference.name
  span : form.span = reference.span
  arguments : form.arguments = reference.arguments

namespace Resembles

theorem refl (reference : Reference) : Resembles reference reference :=
  ⟨rfl, rfl, rfl⟩

theorem trans {first second third : Reference} (left : Resembles first second)
    (right : Resembles second third) : Resembles first third :=
  ⟨right.name.trans left.name, right.span.trans left.span,
    right.arguments.trans left.arguments⟩

end Resembles

theorem Completes.resembles {form final : Reference} (completes : Completes reference form)
    (resembles : Resembles form final) : Completes reference final where
  name := resembles.name.trans completes.name
  span := resembles.span.trans completes.span
  named := by
    have named := completes.named
    unfold Reference.hasNamedArguments at named ⊢
    rw [resembles.arguments]
    exact named
  length := by
    rw [resembles.arguments]
    exact completes.length
  arguments named same := by
    rw [resembles.arguments] at same ⊢
    exact completes.arguments named same

/-- A resolver that completes the references for which it finds something. -/
def Completing (resolver : Resolver) : Prop :=
  ∀ ⦃scope context reference id reached form⦄,
    resolver scope (context, reference) = (.ok (some id), (reached, form)) →
      Completes reference form

theorem resembles_of_decorate {name : String}
    (ends : decorate name id (context, reference) = (.ok (), (reached, form))) :
    Resembles reference form := by
  cases ends
  exact ⟨rfl, rfl, rfl⟩

theorem resembles_of_decorated {name : String} {found : DefinitionId}
    (ends : (do decorate name id; return some id : Revising Reference (Option DefinitionId))
      (context, reference) = (.ok (some found), (reached, form))) :
    Resembles reference form := by
  obtain ⟨_, ⟨middle, draft⟩, decorated, ends⟩ := Step.ok_of_bind ends
  cases ends
  exact resembles_of_decorate decorated

theorem ok_of_named
    (ends : named load scope (context, reference) = (.ok (some id), (reached, form))) :
    load reference.name context = (.ok id, reached) ∧ Resembles reference form := by
  obtain ⟨_, _, drafted, ends⟩ := Step.ok_of_bind ends
  cases drafted
  obtain ⟨found, ⟨middle, draft⟩, lifted, ends⟩ := Step.ok_of_bind ends
  obtain ⟨rfl, recorded⟩ := Drafting.ok_of_lift lifted
  cases found with
  | none => exact nomatch ends
  | some target =>
      have resembles := resembles_of_decorated ends
      cases ends
      exact ⟨Loading.ok_of_orRecorded recorded, resembles⟩

theorem completing_withArguments : Completing (withArguments (named load)) := by
  intro scope context reference id reached form ends
  obtain ⟨found, ⟨middle, draft⟩, resolved, ends⟩ := Step.ok_of_bind ends
  cases found with
  | none => exact nomatch ends
  | some target =>
      have before := (ok_of_named resolved).2
      obtain ⟨_, _, read, ends⟩ := Step.ok_of_bind ends
      cases read
      obtain ⟨accepted, ⟨last, accepted'⟩, checked, ends⟩ := Step.ok_of_bind ends
      cases accepted with
      | false => exact nomatch ends
      | true =>
          cases ends
          obtain ⟨arguments, rfl, length, named, kept⟩ := Arguments.ok_of_check checked
          have sameNamed : reference.hasNamedArguments = draft.hasNamedArguments := by
            unfold Reference.hasNamedArguments
            rw [before.arguments]
          exact
            { name := before.name
              span := before.span
              named
              length := by rw [← before.arguments]; exact Nat.le_of_eq length.symm
              arguments := fun wasNamed _ =>
                (kept (sameNamed ▸ wasNamed)).trans before.arguments }

theorem resembles_of_atTypeArgument {α : Type} {position : Nat}
    {step : Revising TypeArgument (Option α)} {found : Option α}
    (ends : atTypeArgument position step (context, reference) =
      (.ok found, (reached, form))) : Resembles reference form := by
  obtain ⟨_, _, drafted, ends⟩ := Step.ok_of_bind ends
  cases drafted
  cases present : reference.typeArguments[position]? with
  | none =>
      rw [present] at ends
      cases ends
      exact .refl reference
  | some argument =>
      rw [present] at ends
      obtain ⟨part, -, rfl⟩ := Drafting.ok_of_onPart ends
      exact ⟨rfl, rfl, rfl⟩

theorem resembles_of_bindAll {step : String → Revising TypeArgument (Option TypeBinding)}
    {positions : List (String × Nat)} {bindings : TypeBindings} {found : Option TypeBindings}
    (ends : bindAll step positions bindings (context, reference) =
      (.ok found, (reached, form))) : Resembles reference form := by
  induction positions generalizing bindings found context reference with
  | nil =>
      cases ends
      exact .refl _
  | cons entry rest induction =>
      obtain ⟨bound, ⟨middle, draft⟩, here, ends⟩ := Step.ok_of_bind ends
      have before := resembles_of_atTypeArgument here
      cases bound with
      | some binding => exact before.trans (induction ends)
      | none =>
          obtain ⟨others, ⟨last, draftAfter⟩, there, ends⟩ := Step.ok_of_bind ends
          cases ends
          exact before.trans (induction there)

theorem parameters_of_positions {reference : Reference} {generic : String}
    {parameters : List String} {found : List (String × Nat)}
    (ends : TypeArguments.positions reference generic parameters context =
      (.ok (some found), reached)) : parameters ≠ [] := by
  rintro rfl
  obtain ⟨_, _, _, ends⟩ := Step.ok_of_bind ends
  exact nomatch ends

/-- A definition that is not generic is answered as it is. For one that is the instance is
loaded that the type arguments ask for. -/
theorem ok_of_withInstances
    (ends : withInstances frontEnd load nested inner scope (context, reference) =
      (.ok (some id), (reached, form))) :
    ∃ target middle draft,
      inner scope (context, reference) = (.ok (some target), (middle, draft)) ∧
        match (middle.definition target).isGeneric with
        | false => id = target ∧ reached = middle ∧ form = draft
        | true => ∃ positions matched bindings bound changed,
            TypeArguments.positions draft (middle.definition target).name
                ((middle.definition target).typeParameters.map (·.name)) middle =
              (.ok (some positions), matched) ∧
            bindAll (bind frontEnd load nested scope target) positions .empty (matched, draft) =
              (.ok (some bindings), (bound, changed)) ∧
            InstanceRequest.load ⟨target, bindings⟩ frontEnd.registry load bound =
              (.ok id, reached) ∧
            Resembles changed form := by
  obtain ⟨found, ⟨middle, draft⟩, resolved, ends⟩ := Step.ok_of_bind ends
  cases found with
  | none => cases ends
  | some generic =>
      refine ⟨generic, middle, draft, resolved, ?_⟩
      obtain ⟨definition, _, read, ends⟩ := Step.ok_of_bind ends
      obtain ⟨drafted, _, drafting, ends⟩ := Step.ok_of_bind ends
      cases read
      cases drafting
      split at ends
      · rename_i isPlain
        cases ends
        have plain : (reached.definition id).isGeneric = false := by
          simpa using (Bool.and_eq_true_iff.mp isPlain).1
        rw [plain]
        exact ⟨rfl, rfl, rfl⟩
      · obtain ⟨positions, ⟨matched, _⟩, positioned, ends⟩ := Step.ok_of_bind ends
        obtain ⟨rfl, positionedHere⟩ := Drafting.ok_of_lift positioned
        cases positions with
        | none => cases ends
        | some positions =>
            have isGeneric : (middle.definition generic).isGeneric = true := by
              simpa [Definition.isGeneric] using parameters_of_positions positionedHere
            rw [isGeneric]
            obtain ⟨bindings, ⟨bound, changed⟩, all, ends⟩ := Step.ok_of_bind ends
            cases bindings with
            | none => cases ends
            | some bindings =>
                obtain ⟨loaded, ⟨last, _⟩, lifted, ends⟩ := Step.ok_of_bind ends
                obtain ⟨rfl, recorded⟩ := Drafting.ok_of_lift lifted
                cases loaded with
                | none => cases ends
                | some made =>
                    obtain ⟨_, ⟨_, _⟩, read, ends⟩ := Step.ok_of_bind ends
                    cases read
                    have resembles := resembles_of_decorated ends
                    cases ends
                    exact ⟨positions, matched, bindings, bound, changed, positionedHere, all,
                      Loading.ok_of_orRecorded recorded, resembles⟩

theorem completing_withInstances (completing : Completing inner) :
    Completing (withInstances frontEnd load nested inner) := by
  intro scope context reference id reached form ends
  obtain ⟨target, middle, draft, resolved, answer⟩ := ok_of_withInstances ends
  split at answer
  · obtain ⟨-, -, rfl⟩ := answer
    exact completing resolved
  · obtain ⟨_, _, _, _, _, -, bound, -, resembles⟩ := answer
    exact (completing resolved).resembles ((resembles_of_bindAll bound).trans resembles)

theorem ok_of_hoist
    (ends : hoist load (context, reference) = (.ok (), (reached, form))) :
    form.name = reference.name ∧ form.span = reference.span ∧
      ∃ hoisted, form.arguments = reference.arguments ++ hoisted := by
  obtain ⟨_, _, drafted, ends⟩ := Step.ok_of_bind ends
  cases drafted
  obtain ⟨found, ⟨_, _⟩, lifted, ends⟩ := Step.ok_of_bind ends
  obtain ⟨rfl, -⟩ := Drafting.ok_of_lift lifted
  cases found with
  | none =>
      cases ends
      exact ⟨rfl, rfl, [], (List.append_nil _).symm⟩
  | some generic =>
      obtain ⟨hoisted, ⟨_, draft⟩, taken, ends⟩ := Step.ok_of_bind ends
      cases ends
      obtain ⟨typeArguments, -, rfl⟩ := Drafting.ok_of_onPart taken
      exact ⟨rfl, rfl, hoisted.flatten, rfl⟩

theorem completing_withHoisting (completing : Completing inner) :
    Completing (withHoisting load inner) := by
  intro scope context reference id reached form ends
  obtain ⟨_, _, drafted, ends⟩ := Step.ok_of_bind ends
  cases drafted
  split at ends
  · obtain ⟨_, ⟨middle, draft⟩, moved, ends⟩ := Step.ok_of_bind ends
    obtain ⟨name, span, hoisted, arguments⟩ := ok_of_hoist moved
    have completes := completing ends
    have longer := completes.length
    rw [arguments, List.length_append] at longer
    refine ⟨completes.name.trans name, completes.span.trans span, completes.named,
      Nat.le_of_add_right_le longer, ?_⟩
    intro named same
    have none : hoisted = [] := by
      rw [same] at longer
      exact List.eq_nil_of_length_eq_zero (Nat.le_zero.mp (Nat.le_of_add_le_add_left longer))
    rw [none, List.append_nil] at arguments
    rw [← arguments] at same ⊢
    refine completes.arguments ?_ same
    unfold Reference.hasNamedArguments at named ⊢
    rw [arguments]
    exact named
  · exact completing ends

theorem ok_of_withSubstitution
    (ends : withSubstitution load inner scope (context, reference) =
      (.ok (some id), (reached, form))) :
    ∃ target middle draft,
      inner scope (context, reference) = (.ok (some target), (middle, draft)) ∧
        Resembles draft form ∧ ∃ substitution,
          substituteValues load draft target false middle = (.ok substitution, reached) ∧
          (substitution = .notApplicable ∧ id = target ∨ substitution = .substituted id) := by
  obtain ⟨found, ⟨middle, draft⟩, resolved, ends⟩ := Step.ok_of_bind ends
  cases found with
  | none => exact nomatch ends
  | some target =>
      obtain ⟨_, _, drafted, ends⟩ := Step.ok_of_bind ends
      cases drafted
      obtain ⟨substitution, ⟨last, _⟩, lifted, ends⟩ := Step.ok_of_bind ends
      obtain ⟨rfl, substituted⟩ := Drafting.ok_of_lift lifted
      cases substitution with
      | notApplicable =>
          cases ends
          exact ⟨id, middle, form, resolved, .refl _, _, substituted, .inl ⟨rfl, rfl⟩⟩
      | failed => exact nomatch ends
      | substituted copy =>
          obtain ⟨_, ⟨_, _⟩, read, ends⟩ := Step.ok_of_bind ends
          cases read
          have resembles := resembles_of_decorated ends
          cases ends
          exact ⟨target, middle, draft, resolved, resembles, _, substituted, .inr rfl⟩

theorem completing_withSubstitution (completing : Completing inner) :
    Completing (withSubstitution load inner) := by
  intro scope context reference id reached form ends
  obtain ⟨target, middle, draft, resolved, resembles, -⟩ := ok_of_withSubstitution ends
  exact (completing resolved).resembles resembles

/-! ## Below the cache -/

/-- The reference with the full names that its scope gives it. -/
def qualified (frontEnd : FrontEnd) (scope : Option DefinitionId) (context : Context)
    (reference : Reference) : Reference :=
  match scope with
  | none => reference
  | some owner =>
      Qualification.qualify (frontEnd.definitionExists context) (context.definition owner) reference

/-- What resolves the type arguments of a reference. -/
def nestedIn (frontEnd : FrontEnd) (load : String → Loading DefinitionId)
    (reference : Reference) : Resolver :=
  match reference.nesting with
  | 0 => fun _ => return none
  | depth + 1 => nestedTo frontEnd load depth

/-- The layers inside that of the imports. -/
def unqualified (frontEnd : FrontEnd) (load : String → Loading DefinitionId)
    (nested : Resolver) : Resolver :=
  withSubstitution load (withHoisting load
    (withInstances frontEnd load nested (withArguments (named load))))

/-- Full resolution by the layers below the cache. -/
def uncached (frontEnd : FrontEnd) (load : String → Loading DefinitionId) : Resolver :=
  fun scope pair =>
    withImports frontEnd (unqualified frontEnd load (nestedIn frontEnd load pair.2)) scope pair

theorem uncached_eq (scope : Option DefinitionId) (context : Context) (reference : Reference) :
    uncached frontEnd load scope (context, reference) =
      unqualified frontEnd load (nestedIn frontEnd load reference) scope
        (context, qualified frontEnd scope context reference) := by
  unfold uncached
  generalize unqualified frontEnd load _ = inner
  cases scope with
  | none => rfl
  | some owner => rfl

theorem arguments_qualified :
    (qualified frontEnd scope context reference).arguments = reference.arguments := by
  obtain ⟨name, arguments, typeArguments, span, resolved⟩ := reference
  cases scope with
  | none => rfl
  | some owner => rw [qualified, Qualification.qualify]

theorem span_qualified : (qualified frontEnd scope context reference).span = reference.span := by
  obtain ⟨name, arguments, typeArguments, span, resolved⟩ := reference
  cases scope with
  | none => rfl
  | some owner => rw [qualified, Qualification.qualify]

/-- The layers below the cache complete the reference with its full name. -/
theorem completes_uncached
    (ends : uncached frontEnd load scope (context, reference) =
      (.ok (some id), (reached, form))) :
    Completes (qualified frontEnd scope context reference) form := by
  rw [uncached_eq] at ends
  exact completing_withSubstitution (completing_withHoisting
    (completing_withInstances completing_withArguments)) ends

/-! ## Hits and misses -/

/-- What is seen of a resolution: its outcome and the form of the reference. -/
def seen (resolver : Resolver) (scope : Option DefinitionId) (context : Context)
    (reference : Reference) : Except LoadError (Option DefinitionId) × Reference :=
  let (result, _, form) := resolver scope (context, reference)
  (result, form)

/-- A reference that has the form already which it would be given. -/
structure IsSettled (frontEnd : FrontEnd) (scope : Option DefinitionId) (context : Context)
    (reference form : Reference) (id : DefinitionId) : Prop where
  fullName : (qualified frontEnd scope context reference).name = reference.name
  named : reference.hasNamedArguments = true
  nothingHoisted : form.arguments.length = reference.arguments.length
  typeArguments : form.typeArguments = reference.typeArguments
  decoration : form.resolved = some ⟨(context.definition id).name, some id⟩

theorem full_eq (scope : Option DefinitionId) (context : Context) (reference : Reference) :
    full frontEnd load scope (context, reference) =
      withCache (uncached frontEnd load) scope (context, reference) := by
  have layered : nestedTo frontEnd load reference.nesting = withCache (withImports frontEnd
      (unqualified frontEnd load (nestedIn frontEnd load reference))) := by
    unfold nestedIn
    cases reference.nesting with
    | zero => rfl
    | succ depth => rfl
  have drafted : (Drafting.draft : Revising Reference Reference) (context, reference) =
      (.ok reference, (context, reference)) := rfl
  unfold full
  rw [Step.bind_of_ok drafted, layered, withCache_apply, withCache_apply, Step.bind_apply,
    Step.bind_apply]
  rfl

/-- A hit gives what is remembered and leaves the reference in its form. -/
theorem seen_withCache_of_remembered (found : remembered? scope context reference = some id) :
    seen (withCache inner) scope context reference =
      (.ok (some id),
        { reference with resolved := some ⟨(context.definition id).name, some id⟩ }) := by
  rw [seen, withCache_apply, found]

/-- A miss is not seen. -/
theorem seen_withCache_of_unknown (unknown : remembered? scope context reference = none) :
    seen (withCache inner) scope context reference = seen inner scope context reference := by
  rw [seen, withCache_apply, unknown, seen]
  dsimp only
  rw [Step.bind_apply]
  rcases inner scope (context, reference) with ⟨result, reached, form⟩
  cases result with
  | error error => rfl
  | ok found => cases found <;> rfl

theorem seen_eq_iff {result : Except LoadError (Option DefinitionId)} :
    seen inner scope context reference = (result, form) ↔
      ∃ reached, inner scope (context, reference) = (result, (reached, form)) := by
  rw [seen]
  rcases inner scope (context, reference) with ⟨_, reached, _⟩
  constructor
  · intro equal
    cases equal
    exact ⟨reached, rfl⟩
  · rintro ⟨_, equal⟩
    cases equal
    rfl

theorem Completes.form_eq_iff
    (completes : Completes (qualified frontEnd scope context reference) form) :
    form = { reference with resolved := some ⟨(context.definition id).name, some id⟩ } ↔
      IsSettled frontEnd scope context reference form id := by
  constructor
  · rintro rfl
    exact ⟨completes.name.symm, completes.named, rfl, rfl, rfl⟩
  · intro settled
    have name := completes.name.trans settled.fullName
    have span := completes.span.trans span_qualified
    have named : (qualified frontEnd scope context reference).hasNamedArguments = true := by
      unfold Reference.hasNamedArguments
      rw [arguments_qualified]
      exact settled.named
    have arguments := completes.arguments named
      (settled.nothingHoisted.trans (congrArg List.length arguments_qualified.symm))
    rw [arguments_qualified] at arguments
    rw [← name, ← span, ← arguments, ← settled.typeArguments, ← settled.decoration]
    obtain ⟨_, _, _, _, _⟩ := form
    rfl

/-- The cache makes no difference just where it has nothing for a reference, or where the
layers below find what it has and leave the reference as it is: full name, named arguments,
type arguments in their final form. References that are written with words share an entry
just if they differ at most in spans, decorations, and whether a type argument that is a
single name is a type parameter. -/
theorem cache_transparent_iff (frontEnd : FrontEnd) (load : String → Loading DefinitionId) :
    (∀ scope context reference,
      seen (full frontEnd load) scope context reference =
          seen (uncached frontEnd load) scope context reference ↔
        ∀ id, remembered? scope context reference = some id →
          ∃ form, seen (uncached frontEnd load) scope context reference =
              (.ok (some id), form) ∧
            IsSettled frontEnd scope context reference form id) ∧
    ∀ scope left right, left.IsPlain → right.IsPlain →
      (cacheKey left scope = cacheKey right scope ↔ left.outline = right.outline) := by
  constructor
  · intro scope context reference
    have cached : seen (full frontEnd load) scope context reference =
        seen (withCache (uncached frontEnd load)) scope context reference := by
      rw [seen, seen, full_eq]
    rw [cached]
    cases found : remembered? scope context reference with
    | none =>
        rw [seen_withCache_of_unknown found]
        exact ⟨fun _ _ other => (nomatch other), fun _ => rfl⟩
    | some id =>
        rw [seen_withCache_of_remembered found]
        constructor
        · rintro same other equal
          cases equal
          obtain ⟨reached, ends⟩ := seen_eq_iff.mp same.symm
          exact ⟨_, same.symm, (completes_uncached ends).form_eq_iff.mp rfl⟩
        · intro settled
          obtain ⟨form, answer, settled⟩ := settled id rfl
          obtain ⟨reached, ends⟩ := seen_eq_iff.mp answer
          rw [answer, (completes_uncached ends).form_eq_iff.mpr settled]
  · intro scope left right leftPlain rightPlain
    rw [← Reference.text_eq_iff leftPlain rightPlain]
    constructor
    · intro equal
      exact (String.append_right_inj _).mp equal
    · exact congrArg _

/-- A type parameter and a definition of its name. -/
def sharing (value : TypeArgumentValue) : Reference :=
  ⟨"a.H", [], [⟨none, value, .generated⟩], .generated, none⟩

/-- An argument by position. -/
def passing (value : Value) : Reference :=
  ⟨"a.B", [⟨none, value, .generated⟩], [], .generated, none⟩

/-- Different values have different entries; a type parameter and a definition of its name
have the same. -/
theorem entries_of_plain_references :
    (passing (.reference "p")).IsPlain ∧ (passing (.number 1)).IsPlain ∧
      (∀ scope, cacheKey (passing (.reference "p")) scope ≠ cacheKey (passing (.number 1)) scope) ∧
      ∀ scope, cacheKey (sharing (.parameter "T")) scope =
        cacheKey (sharing (.definition (.ofName "T"))) scope := by
  have plain : ∀ value : Value, value.IsPlain → (passing value).IsPlain := by
    intro value plain
    refine ⟨by decide, fun argument member => ?_, trivial⟩
    rw [List.mem_singleton.mp member]
    exact ⟨fun _ named => (nomatch named), plain⟩
  have shares : ∀ value, value = .parameter "T" ∨ value = .definition (.ofName "T") →
      (sharing value).IsPlain := by
    rintro _ (rfl | rfl)
    · exact ⟨by decide, fun _ member => (nomatch member), fun _ named => (nomatch named),
        ⟨by decide, fun _ member => (nomatch member), trivial⟩, trivial⟩
    · exact ⟨by decide, fun _ member => (nomatch member), fun _ named => (nomatch named),
        ⟨by decide, fun _ member => (nomatch member), trivial⟩, trivial⟩
  have keys := (cache_transparent_iff .registeredOnly FrontEnd.registeredOnly.load).2
  refine ⟨plain _ (by decide), plain (.number 1) trivial, fun scope => ?_, fun scope => ?_⟩
  · refine mt (keys scope _ _ (plain _ (by decide)) (plain (.number 1) trivial)).mp ?_
    intro equal
    cases equal
  · exact (keys scope _ _ (shares _ (.inl rfl)) (shares _ (.inr rfl))).mpr rfl

/-- A composite that extends another one and holds an instance of it, both with its own
parameter as the argument. -/
def extending : List Definition :=
  [ (Definition.ofKind "a.Q" .primitive).ensureParameter "size",
    { (Definition.ofKind "a.B" .composite).ensureParameter "x" with
      components :=
        [⟨"c", some ⟨"a.Q", [⟨none, .reference "x", .generated⟩], [], .generated, none⟩, none,
          .generated, .none, none, false⟩] },
    { (Definition.ofKind "a.Top" .composite).ensureParameter "p" with
      parents := [passing (.reference "p")]
      components :=
        [⟨"b", some (passing (.reference "p")), none, .generated, .none, none, false⟩] } ]

def extendingLoaded : Context :=
  FrontEnd.registeredOnly.after [.load "a.Top"] (.ofDefinitions .default extending)

/-- The parent is found in the cache, without the names of its parameters. So they are not
replaced: what is inherited refers to a parameter that there is not, and nothing is reported. -/
theorem extending_not_transparent :
    seen (full .registeredOnly FrontEnd.registeredOnly.load) (some 2) extendingLoaded
        (passing (.reference "p")) ≠
      seen (uncached .registeredOnly FrontEnd.registeredOnly.load) (some 2) extendingLoaded
        (passing (.reference "p")) ∧
    ((extendingLoaded.definition 2).components.map fun component =>
        component.definition.map fun reference => reference.arguments.map (·.value)) =
      [some [.reference "x"], some [.reference "p"]] ∧
    (extendingLoaded.definition 2).hasParameter "x" = false ∧
    extendingLoaded.log.errors.isEmpty = true := by
  refine ⟨fun equal => ?_, by decide +kernel, by decide +kernel, by decide +kernel⟩
  have named := congrArg (fun answer => answer.2.hasNamedArguments) equal
  exact absurd named (by decide +kernel)

end Resolver

end Adl
