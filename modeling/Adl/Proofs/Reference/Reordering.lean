import Adl.Proofs.Reference.CacheTransparency
import Adl.Proofs.Reference.TypeArguments

namespace Adl

open Step

/-! Type arguments by name in another order. The layers inside that of the instances do not look at
the type arguments, and these are bound in the order of the parameters, each at its own position. So
the same instance is found in the same state, and the reference differs in the order only. -/

/-! ## Steps that overlook a change -/

namespace Revising

variable {α β : Type} {change : Reference → Reference}

/-- A step that does not look at what is changed of a reference. -/
def Overlooks (change : Reference → Reference) (step : Revising Reference α) : Prop :=
  ∀ ⦃context reached : Context⦄ ⦃reference form : Reference⦄ ⦃result : Except LoadError α⦄,
    step (context, reference) = (result, (reached, form)) →
      step (context, change reference) = (result, (reached, change form))

namespace Overlooks

theorem pure (value : α) : Overlooks change (Pure.pure value) := by
  intro context reached reference form result ends
  cases ends
  rfl

theorem fail (error : LoadError) : Overlooks change (Step.fail error : Revising Reference α) := by
  intro context reached reference form result ends
  cases ends
  rfl

theorem bind {step : Revising Reference α} {next : α → Revising Reference β}
    (first : Overlooks change step) (second : ∀ value, Overlooks change (next value)) :
    Overlooks change (step >>= next) := by
  intro context reached reference form result ends
  rw [bind_apply] at ends ⊢
  rcases outcome : step (context, reference) with ⟨error | value, middle, draft⟩
  · rw [outcome] at ends
    rw [first outcome]
    cases ends
    rfl
  · rw [outcome] at ends
    rw [first outcome]
    exact second value ends

theorem lift (step : Loading α) : Overlooks change (liftM step) := by
  intro context reached reference form result ends
  rw [Drafting.lift_apply] at ends ⊢
  cases ends
  rfl

/-- What is read of the reference must not depend on what is changed. -/
theorem draft {next : Reference → Revising Reference β}
    (second : ∀ reference, Overlooks change (next reference))
    (agnostic : ∀ reference, next (change reference) = next reference) :
    Overlooks change (Drafting.draft >>= next) := by
  intro context reached reference form result ends
  rw [bind_of_ok (by rfl)] at ends ⊢
  rw [agnostic]
  exact second reference ends

theorem modifyDraft {edit : Reference → Reference}
    (agnostic : ∀ reference, edit (change reference) = change (edit reference)) :
    Overlooks change (Drafting.modifyDraft edit) := by
  intro context reached reference form result ends
  cases ends
  exact congrArg (fun form => (Except.ok (), (context, form))) (agnostic reference)

theorem onPart {Part : Type} {get : Reference → Part} {set : Part → Reference → Reference}
    {step : Drafting Context Part α} (same : ∀ reference, get (change reference) = get reference)
    (agnostic : ∀ part reference, set part (change reference) = change (set part reference)) :
    Overlooks change (Drafting.onPart get set step) := by
  intro context reached reference form result ends
  cases ends
  change ((step (context, get (change reference))).1, (_, set _ (change reference))) = _
  rw [same, agnostic]

end Overlooks

/-- A change of what a reference is given. Its name, place and decoration stay. -/
structure IsOutside (change : Reference → Reference) : Prop where
  name : ∀ reference, (change reference).name = reference.name
  span : ∀ reference, (change reference).span = reference.span
  decorated : ∀ reference resolved,
    { change reference with resolved } = change { reference with resolved }

theorem isOutside_arguments (edit : List Argument → List Argument) :
    IsOutside fun reference => { reference with arguments := edit reference.arguments } :=
  ⟨fun _ => rfl, fun _ => rfl, fun _ _ => rfl⟩

theorem isOutside_typeArguments (others : List TypeArgument) :
    IsOutside fun reference => { reference with typeArguments := others } :=
  ⟨fun _ => rfl, fun _ => rfl, fun _ _ => rfl⟩

/-- A step that overlooks the arguments of a reference leaves them as they are. -/
theorem Overlooks.arguments_eq {step : Revising Reference α} {context reached : Context}
    {reference form : Reference} {result : Except LoadError α}
    (overlooks : ∀ arguments : List Argument, Overlooks ({ · with arguments }) step)
    (ends : step (context, reference) = (result, (reached, form))) :
    form.arguments = reference.arguments := by
  obtain ⟨name, arguments, typeArguments, span, resolved⟩ := reference
  have same := overlooks arguments ends
  rw [ends] at same
  exact congrArg (·.2.2.arguments) same

/-- A step that neither looks at the type arguments of a reference nor changes them. -/
def OverlooksTypeArguments (step : Revising Reference α) : Prop :=
  ∀ others : List TypeArgument, Overlooks ({ · with typeArguments := others }) step

theorem OverlooksTypeArguments.typeArguments_eq {step : Revising Reference α}
    {context reached : Context} {reference form : Reference} {result : Except LoadError α}
    (overlooks : OverlooksTypeArguments step)
    (ends : step (context, reference) = (result, (reached, form))) :
    form.typeArguments = reference.typeArguments := by
  obtain ⟨name, arguments, typeArguments, span, resolved⟩ := reference
  have same := overlooks typeArguments ends
  rw [ends] at same
  exact congrArg (·.2.2.typeArguments) same

end Revising

open Revising TypeArguments

theorem Arguments.overlooks_check (target : Definition) (scope : Option Definition) :
    OverlooksTypeArguments (check target scope) := by
  refine fun others => .draft (fun reference => ?_) fun _ => rfl
  dsimp only
  split
  · split
    · exact .pure true
    · exact .lift _
  · split
    · exact .lift _
    · split
      · split
        · exact .lift _
        · exact .bind (.modifyDraft fun _ => rfl) fun _ => .lift _
      · split
        · exact .fail _
        · split
          · exact .lift _
          · exact .lift _

namespace Qualification

variable (isKnown : String → Bool) (scope : Definition)

/-- A type argument with the full names that its scope gives it. -/
def qualifyTypeArgument (argument : TypeArgument) : TypeArgument :=
  match argument.value with
  | .definition reference =>
      { argument with
        value := match namedParameter? scope reference with
          | some parameter => .parameter parameter
          | none => .definition (qualify isKnown scope reference) }
  | .parameter _ => argument

theorem qualifyTypeArguments_eq (arguments : List TypeArgument) :
    qualifyTypeArguments isKnown scope arguments =
      arguments.map (qualifyTypeArgument isKnown scope) := by
  induction arguments with
  | nil => rw [qualifyTypeArguments, List.map_nil]
  | cons argument rest induction =>
      obtain ⟨name, value, span⟩ := argument
      rw [List.map_cons, ← induction]
      cases value with
      | definition reference => rw [qualifyTypeArguments]; rfl
      | parameter parameter => rw [qualifyTypeArguments]; rfl

theorem qualify_eq (reference : Reference) (others : List TypeArgument) :
    qualify isKnown scope { reference with typeArguments := others } =
      { qualify isKnown scope reference with
        typeArguments := others.map (qualifyTypeArgument isKnown scope) } := by
  obtain ⟨name, arguments, typeArguments, span, resolved⟩ := reference
  rw [qualify, qualify, qualifyTypeArguments_eq]

theorem typeArguments_qualify (reference : Reference) :
    (qualify isKnown scope reference).typeArguments =
      reference.typeArguments.map (qualifyTypeArgument isKnown scope) := by
  obtain ⟨name, arguments, typeArguments, span, resolved⟩ := reference
  rw [qualify, qualifyTypeArguments_eq]

theorem name_qualifyTypeArgument (argument : TypeArgument) :
    (qualifyTypeArgument isKnown scope argument).name = argument.name := by
  unfold qualifyTypeArgument
  split <;> rfl

theorem hasValueArguments_qualifyTypeArgument {argument : TypeArgument}
    (plain : Resolver.hasValueArguments argument = false) :
    Resolver.hasValueArguments (qualifyTypeArgument isKnown scope argument) = false := by
  obtain ⟨name, value, span⟩ := argument
  cases value with
  | parameter parameter => rfl
  | definition reference =>
      obtain ⟨target, arguments, typeArguments, span, resolved⟩ := reference
      unfold qualifyTypeArgument
      dsimp only
      cases namedParameter? scope ⟨target, arguments, typeArguments, span, resolved⟩ with
      | some parameter => rfl
      | none =>
          rw [qualify]
          exact plain

end Qualification

theorem Reference.nesting_of_perm {reference : Reference} {others : List TypeArgument}
    (perm : reference.typeArguments.Perm others) :
    { reference with typeArguments := others }.nesting = reference.nesting := by
  refine Nat.le_antisymm (nesting_le_iff.mpr fun argument member => ?_)
    (nesting_le_iff.mpr fun argument member => ?_)
  · exact nesting_le_iff.mp (Nat.le_refl _) argument (perm.mem_iff.mpr member)
  · exact nesting_le_iff.mp (Nat.le_refl _) argument (perm.mem_iff.mp member)

namespace Resolver

variable {frontEnd : FrontEnd} {load : String → Loading DefinitionId} {inner nested : Resolver}
  {scope : Option DefinitionId} {context reached : Context} {reference form : Reference}
  {id : DefinitionId}

section Overlooking

variable {change : Reference → Reference}

theorem overlooks_decorated (outside : IsOutside change) (name : String) (id : DefinitionId) :
    Overlooks change (do decorate name id; return some id) :=
  .bind (.modifyDraft fun reference => outside.decorated reference _) fun _ => .pure _

theorem overlooks_named (outside : IsOutside change) : Overlooks change (named load scope) := by
  refine .draft (fun reference => .bind (.lift _) fun found => ?_) fun reference => ?_
  · cases found with
    | none => exact .pure none
    | some id => exact overlooks_decorated outside reference.name id
  · rw [outside.name, outside.span]

/-- Loads an instance and puts it in the place of what the reference designates. -/
def requested (frontEnd : FrontEnd) (load : String → Loading DefinitionId)
    (request : InstanceRequest) (span : Span) : Revising Reference (Option DefinitionId) := do
  match ← Loading.orRecorded (request.load frontEnd.registry load) span with
  | none => return none
  | some id =>
      decorate (← Loading.definition id).name id
      return some id

theorem overlooks_requested (outside : IsOutside change) (request : InstanceRequest) (span : Span) :
    Overlooks change (requested frontEnd load request span) := by
  refine .bind (.lift _) fun made => ?_
  cases made with
  | none => exact .pure none
  | some id => exact .bind (.lift _) fun definition => overlooks_decorated outside definition.name id

/-- Puts a copy, where one is made, in the place of the target. -/
def copied (substitution : Loading Substitution) (target : DefinitionId) :
    Revising Reference (Option DefinitionId) := do
  match ← substitution with
  | .notApplicable => return some target
  | .failed => return none
  | .substituted id =>
      decorate (← Loading.definition id).name id
      return some id

theorem overlooks_copied (outside : IsOutside change) (substitution : Loading Substitution)
    (target : DefinitionId) : Overlooks change (copied substitution target) := by
  refine .bind (.lift _) fun substitution => ?_
  cases substitution with
  | notApplicable => exact .pure (some target)
  | failed => exact .pure none
  | substituted id =>
      exact .bind (.lift _) fun definition => overlooks_decorated outside definition.name id

end Overlooking

theorem overlooks_withArguments (overlooks : OverlooksTypeArguments (inner scope)) :
    OverlooksTypeArguments (withArguments inner scope) := by
  refine fun others => .bind (overlooks others) fun found => ?_
  cases found with
  | none => exact .pure none
  | some target =>
      refine .bind (.lift _) fun context => ?_
      refine .bind (Arguments.overlooks_check _ _ others) fun valid => ?_
      cases valid with
      | false => exact .pure none
      | true => exact .pure (some target)

theorem overlooks_withArguments_named (scope : Option DefinitionId) :
    OverlooksTypeArguments (withArguments (named load) scope) :=
  overlooks_withArguments fun others => overlooks_named (isOutside_typeArguments others)

/-! ## Binding -/

section Binding

variable {step : String → Revising TypeArgument (Option TypeBinding)} {bindings found : TypeBindings}
  {positions : List (String × Nat)}

/-- All parameters are bound if the first one is, and then the others are. -/
theorem bindAll_cons_iff {parameter : String} {position : Nat} {rest : List (String × Nat)} :
    bindAll step ((parameter, position) :: rest) bindings (context, reference) =
        (.ok (some found), (reached, form)) ↔
      ∃ argument changed binding middle, reference.typeArguments[position]? = some argument ∧
        step parameter (context, argument) = (.ok (some binding), (middle, changed)) ∧
        bindAll step rest (bindings.insert parameter binding)
            (middle, { reference with
              typeArguments := reference.typeArguments.set position changed }) =
          (.ok (some found), (reached, form)) := by
  constructor
  · intro ends
    obtain ⟨bound, ⟨middle, draft⟩, here, ends⟩ := ok_of_bind ends
    cases bound with
    | none =>
        obtain ⟨_, _, -, ends⟩ := ok_of_bind ends
        exact nomatch ends
    | some binding =>
        obtain ⟨_, _, drafted, here⟩ := ok_of_bind here
        cases drafted
        cases present : reference.typeArguments[position]? with
        | none =>
            rw [present] at here
            exact nomatch here
        | some argument =>
            rw [present] at here
            obtain ⟨changed, stepped, rfl⟩ := Drafting.ok_of_onPart here
            exact ⟨argument, changed, binding, middle, rfl, stepped, ends⟩
  · rintro ⟨argument, changed, binding, middle, present, stepped, ends⟩
    have here : atTypeArgument position (step parameter) (context, reference) =
        (.ok (some binding), (middle, { reference with
          typeArguments := reference.typeArguments.set position changed })) := by
      rw [atTypeArgument, bind_of_ok (by rfl), present]
      dsimp only [Drafting.onPart]
      rw [stepped]
    rw [bindAll, bind_of_ok here]
    exact ends

/-- Arguments at other positions stay as they are. -/
theorem typeArguments_of_bindAll
    (ends : bindAll step positions bindings (context, reference) =
      (.ok (some found), (reached, form))) :
    form.typeArguments.length = reference.typeArguments.length ∧
      ∀ position ∉ positions.map (·.2),
        form.typeArguments[position]? = reference.typeArguments[position]? := by
  induction positions generalizing bindings context reference with
  | nil =>
      cases ends
      exact ⟨rfl, fun _ _ => rfl⟩
  | cons entry rest induction =>
      obtain ⟨_, changed, _, _, -, -, ends⟩ := bindAll_cons_iff.mp ends
      obtain ⟨length, others⟩ := induction ends
      refine ⟨length.trans List.length_set, fun position elsewhere => ?_⟩
      obtain ⟨notHere, notThere⟩ := List.ne_and_not_mem_of_not_mem_cons elsewhere
      exact (others position notThere).trans (List.getElem?_set_ne (Ne.symm notHere))

theorem assigned_set {arguments : List TypeArgument} {position : Nat} (changed : TypeArgument)
    (elsewhere : position ∉ positions.map (·.2)) :
    assigned (arguments.set position changed) positions = assigned arguments positions := by
  refine List.map_congr_left fun entry member => ?_
  have apart : position ≠ entry.2 := fun same =>
    elsewhere (same ▸ List.mem_map_of_mem member)
  rw [List.getElem?_set_ne apart]

/-- Arguments are bound alike wherever they stand, as long as the same parameters have them. -/
theorem bindAll_of_assigned {others : List TypeArgument} {positionsToo : List (String × Nat)}
    (same : assigned others positionsToo = assigned reference.typeArguments positions)
    (distinct : (positions.map (·.2)).Nodup) (distinctToo : (positionsToo.map (·.2)).Nodup)
    (ends : bindAll step positions bindings (context, reference) =
      (.ok (some found), (reached, form))) :
    ∃ changed, bindAll step positionsToo bindings
          (context, { reference with typeArguments := others }) =
        (.ok (some found), (reached, { form with typeArguments := changed })) ∧
      assigned changed positionsToo = assigned form.typeArguments positions := by
  induction positions generalizing positionsToo others bindings context reference with
  | nil =>
      cases positionsToo with
      | nil =>
          cases ends
          exact ⟨others, rfl, rfl⟩
      | cons _ _ => exact nomatch same
  | cons entry rest induction =>
      cases positionsToo with
      | nil => exact nomatch same
      | cons entryToo restToo =>
          obtain ⟨parameter, position⟩ := entry
          obtain ⟨parameterToo, positionToo⟩ := entryToo
          obtain ⟨heads, tails⟩ := List.cons.inj same
          obtain ⟨rfl, sameHere⟩ := Prod.mk.inj heads
          obtain ⟨notAgain, distinct⟩ := List.nodup_cons.mp distinct
          obtain ⟨notAgainToo, distinctToo⟩ := List.nodup_cons.mp distinctToo
          obtain ⟨argument, changed, binding, middle, present, stepped, ends⟩ :=
            bindAll_cons_iff.mp ends
          have presentToo := sameHere.trans present
          -- No position comes twice, so what was put back here is not read by the rest.
          have tailsAfter : assigned (others.set positionToo changed) restToo =
              assigned (reference.typeArguments.set position changed) rest :=
            (assigned_set changed notAgainToo).trans (tails.trans (assigned_set changed notAgain).symm)
          obtain ⟨final, endsToo, sameAfter⟩ := induction tailsAfter distinct distinctToo ends
          refine ⟨final, bindAll_cons_iff.mpr
            ⟨argument, changed, binding, middle, presentToo, stepped, endsToo⟩, ?_⟩
          have within := (List.getElem?_eq_some_iff.mp present).1
          have withinToo := (List.getElem?_eq_some_iff.mp presentToo).1
          have here := (typeArguments_of_bindAll ends).2 position notAgain
          have hereToo := (typeArguments_of_bindAll endsToo).2 positionToo notAgainToo
          rw [List.getElem?_set_self within] at here
          rw [List.getElem?_set_self withinToo] at hereToo
          exact List.cons_eq_cons.mpr ⟨Prod.ext rfl (hereToo.trans here.symm), sameAfter⟩

/-- Where each argument is for some parameter, the bound ones are the same in another order. -/
theorem bindAll_of_everywhere {others : List TypeArgument} {positionsToo : List (String × Nat)}
    (same : assigned others positionsToo = assigned reference.typeArguments positions)
    (everywhere : (positions.map (·.2)).Perm (List.range reference.typeArguments.length))
    (everywhereToo : (positionsToo.map (·.2)).Perm (List.range others.length))
    (ends : bindAll step positions bindings (context, reference) =
      (.ok (some found), (reached, form))) :
    ∃ changed, form.typeArguments.Perm changed ∧
      bindAll step positionsToo bindings (context, { reference with typeArguments := others }) =
        (.ok (some found), (reached, { form with typeArguments := changed })) := by
  obtain ⟨changed, endsToo, sameAfter⟩ := bindAll_of_assigned same
    (everywhere.nodup_iff.mpr List.nodup_range) (everywhereToo.nodup_iff.mpr List.nodup_range) ends
  have length := (typeArguments_of_bindAll ends).1
  have lengthToo := (typeArguments_of_bindAll endsToo).1
  exact ⟨changed, perm_of_assigned sameAfter (length ▸ everywhere) (lengthToo ▸ everywhereToo),
    endsToo⟩

end Binding

/-! ## Instances -/

/-- What is found for a reference to a generic definition: the type arguments are matched with the
type parameters and bound, and the instance that they ask for is loaded. -/
def FindsInstance (frontEnd : FrontEnd) (load : String → Loading DefinitionId) (nested : Resolver)
    (scope : Option DefinitionId) (target : DefinitionId) (context : Context) (reference : Reference)
    (id : DefinitionId) (reached : Context) (form : Reference) : Prop :=
  ∃ positions matched bindings bound changed,
    TypeArguments.positions reference (context.definition target).name
        ((context.definition target).typeParameters.map (·.name)) context =
      (.ok (some positions), matched) ∧
    bindAll (bind frontEnd load nested scope target) positions .empty (matched, reference) =
      (.ok (some bindings), (bound, changed)) ∧
    requested frontEnd load ⟨target, bindings⟩ reference.span (bound, changed) =
      (.ok (some id), (reached, form))

theorem withInstances_eq_iff {middle : Context} {draft : Reference} {target : DefinitionId}
    (resolved : inner scope (context, reference) = (.ok (some target), (middle, draft)))
    (present : draft.typeArguments ≠ []) :
    withInstances frontEnd load nested inner scope (context, reference) =
        (.ok (some id), (reached, form)) ↔
      FindsInstance frontEnd load nested scope target middle draft id reached form := by
  have asked : ¬(!(middle.definition target).isGeneric && draft.typeArguments.isEmpty) = true := by
    simp [present]
  rw [withInstances, bind_of_ok resolved]
  dsimp only
  rw [bind_of_ok (by rfl), bind_of_ok (by rfl), if_neg asked]
  constructor
  · intro ends
    obtain ⟨positions, ⟨matched, _⟩, positioned, ends⟩ := ok_of_bind ends
    obtain ⟨rfl, paired⟩ := Drafting.ok_of_lift positioned
    cases positions with
    | none => exact nomatch ends
    | some positions =>
        obtain ⟨bindings, ⟨bound, changed⟩, all, ends⟩ := ok_of_bind ends
        cases bindings with
        | none => exact nomatch ends
        | some bindings => exact ⟨positions, matched, bindings, bound, changed, paired, all, ends⟩
  · rintro ⟨positions, matched, bindings, bound, changed, positioned, all, made⟩
    rw [bind_of_ok (Drafting.lift_of_ok positioned)]
    dsimp only
    rw [bind_of_ok all]
    exact made

theorem FindsInstance.of_perm {target : DefinitionId} {others : List TypeArgument}
    (finds : FindsInstance frontEnd load nested scope target context reference id reached form)
    (named : ∀ argument ∈ reference.typeArguments, argument.name.isSome = true)
    (perm : reference.typeArguments.Perm others) :
    ∃ changed, form.typeArguments.Perm changed ∧
      FindsInstance frontEnd load nested scope target context
        { reference with typeArguments := others } id reached
        { form with typeArguments := changed } := by
  obtain ⟨positions, matched, bindings, bound, filled, positioned, all, made⟩ := finds
  have overlooks : OverlooksTypeArguments
      (requested frontEnd load ⟨target, bindings⟩ reference.span) :=
    fun others => overlooks_requested (isOutside_typeArguments others) _ _
  obtain ⟨positionsToo, positionedToo, same, everywhere, everywhereToo⟩ :=
    positions_of_perm named perm positioned
  obtain ⟨changed, permAfter, allToo⟩ := bindAll_of_everywhere same everywhere everywhereToo all
  rw [← overlooks.typeArguments_eq made] at permAfter
  exact ⟨changed, permAfter, positionsToo, matched, bindings, bound, _, positionedToo, allToo,
    overlooks changed made⟩

/-- Where the type arguments are as required, a resolver that finds something for a reference finds
the same, in the same state, if they are in another order. -/
def IgnoresOrder (Required : TypeArgument → Prop) (resolver : Resolver) : Prop :=
  ∀ ⦃scope context reached reference form id others⦄,
    (∀ argument ∈ reference.typeArguments, Required argument) →
    reference.typeArguments.Perm others →
    resolver scope (context, reference) = (.ok (some id), (reached, form)) →
      ∃ changed, form.typeArguments.Perm changed ∧
        resolver scope (context, { reference with typeArguments := others }) =
          (.ok (some id), (reached, { form with typeArguments := changed }))

theorem ignoresOrder_withInstances (overlooks : ∀ scope, OverlooksTypeArguments (inner scope)) :
    IgnoresOrder (·.name.isSome = true) (withInstances frontEnd load nested inner) := by
  intro scope context reached reference form id others named perm ends
  obtain ⟨found, ⟨middle, draft⟩, resolved, rest⟩ := ok_of_bind ends
  cases found with
  | none => exact nomatch rest
  | some target =>
      have resolvedToo := overlooks scope others resolved
      rw [← (overlooks scope).typeArguments_eq resolved] at named perm
      by_cases none : draft.typeArguments = []
      · -- There is one order only, and nothing that could be in another.
        rw [none] at perm
        obtain rfl := perm.nil_eq
        have same := (overlooks scope).typeArguments_eq resolved
        obtain ⟨_, _, typeArguments, _, _⟩ := reference
        obtain rfl : typeArguments = [] := same.symm.trans none
        obtain ⟨_, _, typeArguments, _, _⟩ := form
        exact ⟨typeArguments, .refl _, ends⟩
      · have noneToo : others ≠ [] := fun empty => none (perm.trans (.of_eq empty)).eq_nil
        obtain ⟨changed, permAfter, finds⟩ :=
          ((withInstances_eq_iff resolved none).mp ends).of_perm named perm
        exact ⟨changed, permAfter, (withInstances_eq_iff resolvedToo noneToo).mpr finds⟩

/-! ## All layers -/

theorem ignoresOrder_withHoisting {Required : TypeArgument → Prop}
    (ignores : IgnoresOrder Required inner) :
    IgnoresOrder (fun argument => Required argument ∧ hasValueArguments argument = false)
      (withHoisting load inner) := by
  have stays {scope : Option DefinitionId} {context : Context} {reference : Reference}
      (plain : ∀ argument ∈ reference.typeArguments, hasValueArguments argument = false) :
      withHoisting load inner scope (context, reference) = inner scope (context, reference) := by
    have none : ¬reference.typeArguments.any hasValueArguments = true := by
      simpa using plain
    rw [withHoisting, bind_of_ok (by rfl), if_neg none]
  intro scope context reached reference form id others required perm ends
  rw [stays fun argument member => (required argument member).2] at ends
  obtain ⟨changed, permAfter, endsToo⟩ :=
    ignores (fun argument member => (required argument member).1) perm ends
  refine ⟨changed, permAfter, ?_⟩
  rw [stays fun argument member => (required argument (perm.mem_iff.mpr member)).2]
  exact endsToo

theorem withSubstitution_apply {middle : Context} {draft : Reference} {target : DefinitionId}
    (resolved : inner scope (context, reference) = (.ok (some target), (middle, draft))) :
    withSubstitution load inner scope (context, reference) =
      copied (substituteValues load draft target false) target (middle, draft) := by
  rw [withSubstitution, bind_of_ok resolved]
  exact bind_of_ok (by rfl)

theorem ignoresOrder_withSubstitution {Required : TypeArgument → Prop}
    (ignores : IgnoresOrder Required inner) :
    IgnoresOrder Required (withSubstitution load inner) := by
  intro scope context reached reference form id others required perm ends
  obtain ⟨target, middle, draft, resolved, -⟩ := ok_of_withSubstitution ends
  rw [withSubstitution_apply resolved] at ends
  obtain ⟨changed, permAfter, resolvedToo⟩ := ignores required perm resolved
  have overlooks : OverlooksTypeArguments (copied (substituteValues load draft target false) target) :=
    fun others => overlooks_copied (isOutside_typeArguments others) _ _
  rw [← overlooks.typeArguments_eq ends] at permAfter
  refine ⟨changed, permAfter, ?_⟩
  rw [withSubstitution_apply resolvedToo]
  exact overlooks changed ends

theorem nestedIn_of_perm {others : List TypeArgument}
    (perm : reference.typeArguments.Perm others) :
    nestedIn frontEnd load { reference with typeArguments := others } =
      nestedIn frontEnd load reference := by
  rw [nestedIn, nestedIn, Reference.nesting_of_perm perm]

/-- Full names are given to type arguments one by one. -/
theorem qualified_of_perm {others : List TypeArgument}
    (perm : reference.typeArguments.Perm others) :
    ∃ othersToo, (qualified frontEnd scope context reference).typeArguments.Perm othersToo ∧
      qualified frontEnd scope context { reference with typeArguments := others } =
        { qualified frontEnd scope context reference with typeArguments := othersToo } := by
  cases scope with
  | none => exact ⟨others, perm, rfl⟩
  | some owner =>
      rw [qualified, qualified, Qualification.qualify_eq, Qualification.typeArguments_qualify]
      exact ⟨_, perm.map _, rfl⟩

/-- Full resolution below the cache, where no type argument has values that are moved out of it. -/
theorem ignoresOrder_uncached :
    IgnoresOrder (fun argument =>
      argument.name.isSome = true ∧ hasValueArguments argument = false) (uncached frontEnd load) := by
  intro scope context reached reference form id others required perm ends
  have ignores : IgnoresOrder _ (unqualified frontEnd load (nestedIn frontEnd load reference)) :=
    ignoresOrder_withSubstitution (ignoresOrder_withHoisting
      (ignoresOrder_withInstances overlooks_withArguments_named))
  obtain ⟨othersToo, permToo, qualifiedToo⟩ := qualified_of_perm perm
  rw [uncached_eq] at ends ⊢
  rw [nestedIn_of_perm perm, qualifiedToo]
  refine ignores ?_ permToo ends
  cases scope with
  | none => exact required
  | some owner =>
      rw [qualified, Qualification.typeArguments_qualify]
      refine List.forall_mem_map.mpr fun argument member => ?_
      obtain ⟨named, plain⟩ := required argument member
      exact ⟨(Qualification.name_qualifyTypeArgument _ _ argument).symm ▸ named,
        Qualification.hasValueArguments_qualifyTypeArgument _ _ plain⟩

end Resolver

end Adl
