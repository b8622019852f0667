import Adl.Proofs.Reference.Reordering
import Mathlib.Data.List.Basic

namespace Adl

open Step Revising

/-! Type arguments with values, in another order. The values are moved to the reference before an
instance is looked for, under names that tell for which type parameter they were. The instance is
found without them, and a copy of it takes each by its name. So the same copy of the same instance is
found in the same state, unless something is loaded while the values are moved. -/

/-! ## Names -/

namespace Hoisted

theorem toList_name (typeParameter parameter : String) :
    (name typeParameter parameter).toList =
      typeParameter.toList ++ separator :: parameter.toList := by
  simp [name]

theorem isHoisted_name (typeParameter parameter : String) :
    isHoisted (name typeParameter parameter) = true := by
  simp [isHoisted, toList_name]

/-- What stands before the first separator tells the type parameter. -/
theorem takeWhile_name {typeParameter : String} (parameter : String)
    (word : separator ∉ typeParameter.toList) :
    (name typeParameter parameter).toList.takeWhile (· ≠ separator) = typeParameter.toList := by
  have before : ∀ char ∈ typeParameter.toList, decide (char ≠ separator) = true := by
    intro char member
    exact decide_eq_true fun same => word (same ▸ member)
  rw [toList_name, List.takeWhile_append_of_pos before, List.takeWhile_cons_of_neg (by simp),
    List.append_nil]

theorem eq_of_name_eq {left right : String} {first second : String}
    (word : separator ∉ left.toList) (wordToo : separator ∉ right.toList)
    (same : name left first = name right second) : left = right := by
  have texts := takeWhile_name first word
  rw [same, takeWhile_name second wordToo] at texts
  exact (String.toList_injective texts).symm

end Hoisted

/-- What is in one part at most is found alike in any order of the parts. -/
theorem find?_flatMap_of_perm {α β : Type} {parts others : List α} {items : α → List β}
    {wanted : β → Bool} (perm : parts.Perm others)
    (apart : parts.Pairwise fun left right =>
      (items left).find? wanted = none ∨ (items right).find? wanted = none) :
    (parts.flatMap items).find? wanted = (others.flatMap items).find? wanted := by
  induction perm with
  | nil => rfl
  | cons part _ induction =>
      rw [List.flatMap_cons, List.flatMap_cons, List.find?_append, List.find?_append,
        induction (List.pairwise_cons.mp apart).2]
  | swap first second rest =>
      have either := (List.pairwise_cons.mp apart).1 first List.mem_cons_self
      simp only [List.flatMap_cons, List.find?_append, ← Option.or_assoc]
      rcases either with none | none
      · rw [none, Option.none_or, Option.or_none]
      · rw [none, Option.none_or, Option.or_none]
  | trans perm _ first second =>
      have apartToo := (perm.pairwise_iff fun either => either.symm).mp apart
      exact (first apart).trans (second apartToo)

/-! ## Arguments -/

namespace Arguments

variable {target : Definition} {hoisted : List Argument}

/-- All arguments come from type arguments. -/
def AreHoisted (arguments : List Argument) : Prop :=
  ∀ argument ∈ arguments, argument.name.any Hoisted.isHoisted = true

theorem filter_isRelevant_append (generic : target.isGeneric = true)
    (areHoisted : AreHoisted hoisted) (arguments : List Argument) :
    (arguments ++ hoisted).filter (isRelevant target) = arguments.filter (isRelevant target) := by
  have none : hoisted.filter (isRelevant target) = [] := by
    refine List.filter_eq_nil_iff.mpr fun argument member => ?_
    simp [isRelevant, generic, areHoisted argument member]
  rw [List.filter_append, none, List.append_nil]

/-- Names are given to arguments that do not come from type arguments. -/
theorem nameByPosition_append (generic : target.isGeneric = true)
    (areHoisted : AreHoisted hoisted) (parameters : List String) (arguments : List Argument) :
    nameByPosition target parameters (arguments ++ hoisted) =
      nameByPosition target parameters arguments ++ hoisted := by
  induction arguments generalizing parameters with
  | nil =>
      induction hoisted with
      | nil => simp
      | cons argument rest induction =>
          have here : isRelevant target argument = false := by
            simp [isRelevant, generic, areHoisted argument List.mem_cons_self]
          have others := induction fun other member =>
            areHoisted other (List.mem_cons_of_mem _ member)
          rw [List.nil_append] at others ⊢
          rw [nameByPosition_cons parameters rest here, others]
          simp [nameByPosition]
  | cons argument rest induction =>
      cases parameters with
      | nil => rfl
      | cons parameter parameters =>
          rw [List.cons_append, nameByPosition, nameByPosition]
          split
          · rw [induction, List.cons_append]
          · rw [induction, List.cons_append]

/-- Arguments of a generic definition are checked without those that come from type arguments. -/
theorem overlooks_check_hoisted (generic : target.isGeneric = true)
    (areHoisted : AreHoisted hoisted) (scope : Option Definition) :
    Overlooks (fun reference => { reference with arguments := reference.arguments ++ hoisted })
      (check target scope) := by
  have lifted : ∀ step : Loading Bool, Overlooks (fun reference =>
      { reference with arguments := reference.arguments ++ hoisted }) (liftM step) := .lift
  intro context reached reference form result ends
  rw [check, bind_of_ok (by rfl)] at ends ⊢
  dsimp only at ends ⊢
  rw [filter_isRelevant_append generic areHoisted]
  split at ends
  · rename_i noParameters
    rw [if_pos noParameters]
    split at ends
    · rename_i irrelevant
      rw [if_pos irrelevant]
      cases ends
      rfl
    · rename_i relevant
      rw [if_neg relevant]
      exact lifted _ ends
  · rename_i someParameters
    rw [if_neg someParameters]
    split at ends
    · rename_i irrelevant
      rw [if_pos irrelevant]
      exact lifted _ ends
    · rename_i relevant
      rw [if_neg relevant]
      split at ends
      · rename_i unnamed
        rw [if_pos unnamed]
        cases problem : positionProblem? target reference.span
            (reference.arguments.filter (isRelevant target)).length with
        | some diagnostic =>
            rw [problem] at ends
            exact lifted _ ends
        | none =>
            rw [problem] at ends
            dsimp only at ends ⊢
            rw [bind_of_ok (by rfl)] at ends ⊢
            rw [nameByPosition_append generic areHoisted]
            exact lifted _ ends
      · rename_i someNamed
        rw [if_neg someNamed]
        split at ends
        · rename_i mixed
          rw [if_pos mixed]
          cases ends
          rfl
        · rename_i named
          rw [if_neg named]
          cases problems : namedProblems target reference.span
              (reference.arguments.filter (isRelevant target)) with
          | nil =>
              rw [problems] at ends
              exact lifted _ ends
          | cons diagnostic rest =>
              rw [problems] at ends
              exact lifted _ ends

end Arguments

namespace Resolver

open Arguments

variable {frontEnd : FrontEnd} {load : String → Loading DefinitionId} {nested : Resolver}
  {scope : Option DefinitionId} {context reached : Context} {reference form : Reference}
  {id target : DefinitionId} {hoisted : List Argument}

/-! ## Instances -/

/-- A generic definition is found with other values of the type arguments as well. -/
theorem withArguments_of_hoisted (generic : (reached.definition target).isGeneric = true)
    (areHoisted : AreHoisted hoisted)
    (ends : withArguments (named load) scope
        (context, { reference with arguments := reference.arguments ++ hoisted }) =
      (.ok (some target), (reached, form))) :
    ∃ arguments, form.arguments = arguments ++ hoisted ∧ ∀ others, AreHoisted others →
      withArguments (named load) scope
          (context, { reference with arguments := reference.arguments ++ others }) =
        (.ok (some target), (reached, { form with arguments := arguments ++ others })) := by
  rcases found : named load scope (context, reference) with ⟨error | answer, middle, draft⟩
  all_goals have foundWith (extra : List Argument) :=
    overlooks_named (isOutside_arguments (· ++ extra)) found
  · rw [withArguments, bind_apply, foundWith hoisted] at ends
    exact nomatch ends
  · rw [withArguments, bind_of_ok (foundWith hoisted)] at ends
    cases answer with
    | none => exact nomatch ends
    | some known =>
        dsimp only at ends
        rw [bind_of_ok (by rfl)] at ends
        obtain ⟨accepted, ⟨last, _⟩, checked, ends⟩ := ok_of_bind ends
        cases accepted with
        | false => exact nomatch ends
        | true =>
            cases ends
            rw [(reports_of_check _ checked).definition] at generic
            rcases alone : check (middle.definition target) (scopeDefinition? scope middle)
              (middle, draft) with ⟨result, last, changed⟩
            have checkedWith {extra : List Argument} (areHoisted : AreHoisted extra) :=
              overlooks_check_hoisted generic areHoisted _ alone
            cases checked.symm.trans (checkedWith areHoisted)
            refine ⟨changed.arguments, rfl, fun others areHoistedToo => ?_⟩
            rw [withArguments, bind_of_ok (foundWith others)]
            dsimp only
            rw [bind_of_ok (by rfl), bind_of_ok (checkedWith areHoistedToo)]
            rfl

theorem overlooks_bindAll (step : String → Revising TypeArgument (Option TypeBinding))
    (positions : List (String × Nat)) (bindings : TypeBindings) (arguments : List Argument) :
    Overlooks ({ · with arguments }) (bindAll step positions bindings) := by
  induction positions generalizing bindings with
  | nil => exact .pure (some bindings)
  | cons entry rest induction =>
      refine .bind (.draft (fun reference => ?_) fun _ => rfl) fun bound => ?_
      · split
        · exact .pure none
        · exact .onPart (fun _ => rfl) fun _ _ => rfl
      · cases bound with
        | some binding => exact induction _
        | none => exact .bind (induction bindings) fun _ => .pure none

namespace FindsInstance

theorem isGeneric
    (finds : FindsInstance frontEnd load nested scope target context reference id reached form) :
    (context.definition target).isGeneric = true := by
  obtain ⟨_, _, _, _, _, positioned, -⟩ := finds
  simpa [Definition.isGeneric] using parameters_of_positions positioned

theorem distinct
    (finds : FindsInstance frontEnd load nested scope target context reference id reached form)
    (named : ∀ argument ∈ reference.typeArguments, argument.name.isSome = true) :
    (reference.typeArguments.map (·.name)).Nodup := by
  obtain ⟨_, _, _, _, _, positioned, -⟩ := finds
  exact ((TypeArguments.positions_of_named_iff named).mp positioned).2.1.distinct

/-- The arguments are not looked at. -/
theorem with_arguments
    (finds : FindsInstance frontEnd load nested scope target context reference id reached form)
    (named : ∀ argument ∈ reference.typeArguments, argument.name.isSome = true)
    (arguments : List Argument) :
    FindsInstance frontEnd load nested scope target context { reference with arguments } id reached
      { form with arguments } := by
  obtain ⟨positions, matched, bindings, bound, filled, positioned, all, made⟩ := finds
  have namedToo : ∀ argument ∈ { reference with arguments }.typeArguments,
      argument.name.isSome = true := named
  exact ⟨positions, matched, bindings, bound, _,
    (TypeArguments.positions_of_named_iff namedToo).mpr
      ((TypeArguments.positions_of_named_iff named).mp positioned),
    overlooks_bindAll _ _ _ arguments all,
    overlooks_requested (isOutside_arguments fun _ => arguments) _ _ made⟩

theorem arguments_eq
    (finds : FindsInstance frontEnd load nested scope target context reference id reached form) :
    form.arguments = reference.arguments := by
  obtain ⟨_, _, _, _, _, -, all, made⟩ := finds
  have bound := Overlooks.arguments_eq (overlooks_bindAll _ _ _) all
  have taken := Overlooks.arguments_eq (fun arguments =>
    overlooks_requested (isOutside_arguments fun _ => arguments) _ _) made
  exact taken.trans bound

end FindsInstance

/-- The same instance is found with other values of the type arguments, and with these in another
order. -/
theorem withInstances_of_hoisted (reference : Reference)
    (areNamed : ∀ argument ∈ reference.typeArguments, argument.name.isSome = true)
    (present : reference.typeArguments ≠ []) (areHoisted : AreHoisted hoisted)
    (ends : withInstances frontEnd load nested (withArguments (named load)) scope
        (context, { reference with arguments := reference.arguments ++ hoisted }) =
      (.ok (some id), (reached, form))) :
    (reference.typeArguments.map (·.name)).Nodup ∧
    ∃ arguments, form.arguments = arguments ++ hoisted ∧
      ∀ hoistedToo others, AreHoisted hoistedToo → reference.typeArguments.Perm others →
        ∃ typeArguments, form.typeArguments.Perm typeArguments ∧
          withInstances frontEnd load nested (withArguments (named load)) scope
              (context, { reference with
                arguments := reference.arguments ++ hoistedToo
                typeArguments := others }) =
            (.ok (some id), (reached, { form with
              arguments := arguments ++ hoistedToo
              typeArguments })) := by
  obtain ⟨found, ⟨middle, draft⟩, resolved, rest⟩ := ok_of_bind ends
  cases found with
  | none => exact nomatch rest
  | some target =>
      have typeArguments := (overlooks_withArguments_named scope).typeArguments_eq resolved
      dsimp only at typeArguments
      rw [← typeArguments] at areNamed present ⊢
      have finds := (withInstances_eq_iff resolved present).mp ends
      obtain ⟨arguments, same, found⟩ :=
        withArguments_of_hoisted finds.isGeneric areHoisted resolved
      refine ⟨finds.distinct areNamed, arguments, finds.arguments_eq.trans same,
        fun hoistedToo others areHoistedToo perm => ?_⟩
      obtain ⟨changed, permAfter, findsToo⟩ :=
        (finds.with_arguments areNamed (arguments ++ hoistedToo)).of_perm areNamed perm
      have foundToo := overlooks_withArguments_named scope others (found hoistedToo areHoistedToo)
      have presentToo : others ≠ [] := fun none => present (perm.trans (.of_eq none)).eq_nil
      exact ⟨changed, permAfter, (withInstances_eq_iff foundToo presentToo).mpr findsToo⟩

/-! ## Moving the values -/

/-- Type arguments are by name, and nothing is loaded to see what their values are for. A name is a
word, so that it can be told from what comes after it in the name of a value. -/
structure HoistsQuietly (load : String → Loading DefinitionId) (context : Context)
    (reference : Reference) : Prop where
  named : ∀ argument ∈ reference.typeArguments, ∃ parameter, argument.name = some parameter ∧
    Hoisted.separator ∉ parameter.toList
  quiet : let seen := (peek load reference.name context).2
    ∀ argument ∈ reference.typeArguments, ∀ part, argument.value = .definition part →
      part.arguments ≠ [] → (argumentNames? load part seen).2 = seen

theorem HoistsQuietly.isSome_name (quiet : HoistsQuietly load context reference) :
    ∀ argument ∈ reference.typeArguments, argument.name.isSome = true := by
  intro argument member
  obtain ⟨parameter, isName, -⟩ := quiet.named argument member
  rw [isName, Option.isSome_some]

/-- Nothing more is loaded for values of a definition that is loaded. -/
theorem context_argumentNames?_of_found
    (found : context.cache.find? reference.name = some id) :
    (argumentNames? frontEnd.load reference context).2 = context := by
  have loaded : (frontEnd.load reference.name).outcome context = (.ok (.ok id), context) := by
    rw [outcome, FrontEnd.load_of_found found]
  have peeked : peek frontEnd.load reference.name context =
      (.ok (some (context.definition id)), context) := by
    rw [peek, bind_of_ok loaded]
    rfl
  rw [argumentNames?]
  split
  · rfl
  · split
    · rfl
    · rw [bind_of_ok peeked]
      dsimp only
      split
      · rfl
      · rfl

section Taking

variable {argument : TypeArgument} {parameter : String}

/-- A type argument by name gives its values wherever it stands. -/
theorem takeArguments_of_named (named : argument.name = some parameter) (parameters : List String)
    (position : Nat) :
    takeArguments load parameters position (context, argument) =
      takeArguments load [] 0 (context, argument) := by
  rw [takeArguments, bind_of_ok (by rfl), takeArguments, bind_of_ok (by rfl), named,
    Option.some_or, Option.some_or]

/-- How values are taken: there are none, or it is not known what they are for, or they are given the
names of the parameters that they are for. -/
inductive Takes (load : String → Loading DefinitionId) (context : Context) (argument : TypeArgument)
    (parameter : String) : Except LoadError (List Argument) × Context × TypeArgument → Prop
  | nothing : Takes load context argument parameter (.ok [], context, argument)
  | failed {part : Reference} {error : LoadError} {reached : Context}
      (value : argument.value = .definition part) (present : part.arguments ≠ [])
      (asked : argumentNames? load part context = (.error error, reached)) :
      Takes load context argument parameter (.error error, reached, argument)
  | unknown {part : Reference} {reached : Context} (value : argument.value = .definition part)
      (present : part.arguments ≠ [])
      (asked : argumentNames? load part context = (.ok none, reached)) :
      Takes load context argument parameter (.ok [], reached, argument)
  | named {part : Reference} {names : List String} {reached : Context}
      (value : argument.value = .definition part) (present : part.arguments ≠ [])
      (asked : argumentNames? load part context = (.ok (some names), reached)) :
      Takes load context argument parameter
        (.ok (List.zipWith (hoistedArgument parameter) names part.arguments), reached,
          { argument with value := .definition { part with arguments := [] } })

theorem takes (named : argument.name = some parameter) :
    Takes load context argument parameter (takeArguments load [] 0 (context, argument)) := by
  rw [takeArguments, bind_of_ok (by rfl), named, Option.some_or]
  cases value : argument.value with
  | parameter used => exact .nothing
  | definition part =>
      dsimp only
      split
      · exact .nothing
      · rename_i someArguments
        have present : part.arguments ≠ [] := mt List.isEmpty_iff.mpr someArguments
        rcases asked : argumentNames? load part context with ⟨error | answer, reached⟩
        · rw [bind_apply, Drafting.lift_apply, asked]
          exact .failed value present asked
        · rw [bind_of_ok (Drafting.lift_of_ok asked)]
          cases answer with
          | none => exact .unknown value present asked
          | some names => exact .named value present asked

namespace Takes

variable {outcome : Except LoadError (List Argument)} {changed : TypeArgument}

theorem name_eq (takes : Takes load context argument parameter (outcome, reached, changed)) :
    changed.name = argument.name := by
  cases takes <;> rfl

theorem context_eq (takes : Takes load context argument parameter (outcome, reached, changed))
    (quiet : ∀ part, argument.value = .definition part → part.arguments ≠ [] →
      (argumentNames? load part context).2 = context) : reached = context := by
  cases takes with
  | nothing => rfl
  | failed value present asked => exact (congrArg (·.2) asked).symm.trans (quiet _ value present)
  | unknown value present asked => exact (congrArg (·.2) asked).symm.trans (quiet _ value present)
  | named value present asked => exact (congrArg (·.2) asked).symm.trans (quiet _ value present)

theorem isHoisted {values : List Argument}
    (takes : Takes load context argument parameter (.ok values, reached, changed)) :
    ∀ value ∈ values, ∃ name, value.name = some (Hoisted.name parameter name) := by
  cases takes with
  | nothing => exact fun _ => nofun
  | unknown _ _ _ => exact fun _ => nofun
  | named _ _ _ =>
      intro value member
      rw [← List.map_uncurry_zip_eq_zipWith] at member
      obtain ⟨⟨name, argument⟩, -, rfl⟩ := List.mem_map.mp member
      exact ⟨name, rfl⟩

end Takes

end Taking

/-- A reference with the values of its type arguments. -/
def hoistedBy (taken : TypeArgument → List Argument) (stripped : TypeArgument → TypeArgument)
    (reference : Reference) : Reference :=
  { reference with
    arguments := reference.arguments ++ reference.typeArguments.flatMap taken
    typeArguments := reference.typeArguments.map stripped }

/-- How type arguments are taken apart: they keep their names, and their values are given names that
begin with these. -/
structure TakesApart (taken : TypeArgument → List Argument)
    (stripped : TypeArgument → TypeArgument) (argument : TypeArgument) : Prop where
  name : (stripped argument).name = argument.name
  hoisted : ∀ value ∈ taken argument, ∃ parameter name, argument.name = some parameter ∧
    value.name = some (Hoisted.name parameter name)

/-- Type arguments that are visited in one state are all taken apart in it, in any order. -/
theorem each_takeArguments_of_quiet {arguments changed : List TypeArgument}
    {values : List (List Argument)} (parameters : List String)
    (named : ∀ argument ∈ arguments, ∃ parameter, argument.name = some parameter)
    (quiet : ∀ argument ∈ arguments, ∀ part, argument.value = .definition part →
      part.arguments ≠ [] → (argumentNames? load part context).2 = context)
    (ends : Drafting.each (takeArguments load parameters) (context, arguments) =
      (.ok values, (reached, changed))) :
    ∃ taken stripped, (∀ argument ∈ arguments, TakesApart taken stripped argument) ∧
      ∀ others, arguments.Perm others →
        Drafting.each (takeArguments load parameters) (context, others) =
          (.ok (others.map taken), (context, others.map stripped)) := by
  let take (argument : TypeArgument) := takeArguments load [] 0 (context, argument)
  have stays : ∀ position, ∀ argument ∈ arguments,
      takeArguments load parameters position (context, argument) =
        ((take argument).1, (context, (take argument).2.2)) := by
    intro position argument member
    obtain ⟨parameter, isName⟩ := named argument member
    rw [takeArguments_of_named isName]
    have same : (take argument).2.1 = context :=
      (takes isName).context_eq (quiet argument member)
    exact Prod.ext rfl (Prod.ext same rfl)
  have succeed := Drafting.ok_of_each stays ends
  refine ⟨fun argument => (take argument).1.toOption.getD [], fun argument => (take argument).2.2,
    fun argument member => ?_, fun others perm => Drafting.each_of_changes _ ?_⟩
  · obtain ⟨parameter, isName⟩ := named argument member
    obtain ⟨values, made⟩ := succeed argument member
    have apart : Takes load context argument parameter (.ok values, (take argument).2) :=
      made ▸ takes isName
    refine ⟨apart.name_eq, fun value among => ?_⟩
    rw [made] at among
    obtain ⟨name, isHoisted⟩ := apart.isHoisted value among
    exact ⟨parameter, name, isName, isHoisted⟩
  · intro position argument member
    obtain ⟨values, made⟩ := succeed argument (perm.mem_iff.mpr member)
    rw [stays position argument (perm.mem_iff.mpr member), made]
    rfl

theorem hoist_of_quiet (quiet : HoistsQuietly load context reference)
    (ends : hoist load (context, reference) = (.ok (), (reached, form))) :
    ∃ taken stripped, (∀ argument ∈ reference.typeArguments, TakesApart taken stripped argument) ∧
      ∀ others, reference.typeArguments.Perm others →
        hoist load (context, { reference with typeArguments := others }) =
          (.ok (), (reached,
            hoistedBy taken stripped { reference with typeArguments := others })) := by
  rw [hoist, bind_of_ok (by rfl)] at ends
  obtain ⟨found, ⟨seen, _⟩, lifted, ends⟩ := ok_of_bind ends
  obtain ⟨rfl, peeked⟩ := Drafting.ok_of_lift lifted
  cases found with
  | none =>
      cases ends
      refine ⟨fun _ => [], id, fun _ _ => ⟨rfl, nofun⟩, fun others _ => ?_⟩
      have none : others.flatMap (fun _ => ([] : List Argument)) = [] :=
        List.flatMap_eq_nil_iff.mpr fun _ _ => rfl
      rw [hoist, bind_of_ok (by rfl), bind_of_ok (Drafting.lift_of_ok peeked), hoistedBy, none,
        List.append_nil, List.map_id]
      rfl
  | some generic =>
      obtain ⟨values, ⟨last, _⟩, onPart, ends⟩ := ok_of_bind ends
      obtain ⟨changed, visited, rfl⟩ := Drafting.ok_of_onPart onPart
      cases ends
      have isSeen : (peek load reference.name context).2 = seen := congrArg (·.2) peeked
      have named : ∀ argument ∈ reference.typeArguments,
          ∃ parameter, argument.name = some parameter := fun argument member =>
        (quiet.named argument member).imp fun _ named => named.1
      obtain ⟨taken, stripped, apart, each⟩ :=
        each_takeArguments_of_quiet _ named (isSeen ▸ quiet.quiet) visited
      obtain rfl : reached = seen := congrArg (·.2.1) (visited.symm.trans (each _ (.refl _)))
      refine ⟨taken, stripped, apart, fun others perm => ?_⟩
      rw [hoist, bind_of_ok (by rfl), bind_of_ok (Drafting.lift_of_ok peeked)]
      dsimp only
      rw [bind_of_ok (Drafting.onPart_of_ok (each others perm))]
      rw [hoistedBy, List.flatMap_def]
      rfl

/-! ## All layers -/

/-- The same arguments in another order, where each name is found for the same one. -/
structure Rearranges (left right : List Argument) : Prop where
  perm : left.Perm right
  found : ∀ name, right.find? (·.name == some name) = left.find? (·.name == some name)

theorem Rearranges.refl (arguments : List Argument) : Rearranges arguments arguments :=
  ⟨.refl _, fun _ => rfl⟩

/-- What is hoisted from type arguments for different parameters has different names. -/
theorem rearranges_of_takesApart {arguments others : List TypeArgument}
    {taken : TypeArgument → List Argument} {stripped : TypeArgument → TypeArgument}
    (apart : ∀ argument ∈ arguments, TakesApart taken stripped argument)
    (words : ∀ argument ∈ arguments, ∃ parameter, argument.name = some parameter ∧
      Hoisted.separator ∉ parameter.toList)
    (distinct : (arguments.map (·.name)).Nodup) (perm : arguments.Perm others)
    (own : List Argument) :
    Rearranges (own ++ arguments.flatMap taken) (own ++ others.flatMap taken) := by
  refine ⟨(perm.flatMap fun _ _ => .refl _).append_left own, fun name => ?_⟩
  rw [List.find?_append, List.find?_append]
  refine congrArg _ (find?_flatMap_of_perm perm ?_).symm
  have parameter_of_found : ∀ {argument : TypeArgument} {value : Argument}, argument ∈ arguments →
      (taken argument).find? (·.name == some name) = some value →
        ∃ parameter first, argument.name = some parameter ∧
          Hoisted.separator ∉ parameter.toList ∧ name = Hoisted.name parameter first := by
    intro argument value member found
    obtain ⟨parameter, first, isName, isHoisted⟩ :=
      (apart argument member).hoisted value (List.mem_of_find?_eq_some found)
    obtain ⟨_, isNameToo, word⟩ := words argument member
    obtain rfl := Option.some.inj (isName.symm.trans isNameToo)
    have same : value.name = some name := by simpa using List.find?_some found
    exact ⟨parameter, first, isName, word, Option.some.inj (same.symm.trans isHoisted)⟩
  refine (List.pairwise_map.mp distinct).imp_of_mem fun {left right} isLeft isRight differ => ?_
  cases found : (taken left).find? (·.name == some name) with
  | none => exact .inl rfl
  | some value =>
      cases foundToo : (taken right).find? (·.name == some name) with
      | none => exact .inr rfl
      | some valueToo =>
          obtain ⟨parameter, first, isName, word, same⟩ := parameter_of_found isLeft found
          obtain ⟨parameterToo, second, isNameToo, wordToo, sameToo⟩ :=
            parameter_of_found isRight foundToo
          have equal := Hoisted.eq_of_name_eq word wordToo (same.symm.trans sameToo)
          exact absurd (isName.trans (equal ▸ isNameToo.symm)) differ

/-- A resolver that finds something for a reference finds the same, in the same state, if the type
arguments are in another order. The values of these are moved to the reference in their order. -/
def IgnoresOrderOfValues (Required : Option DefinitionId → Context → Reference → Prop)
    (resolver : Resolver) : Prop :=
  ∀ ⦃scope context reached reference form id others⦄, Required scope context reference →
    reference.typeArguments.Perm others →
    resolver scope (context, reference) = (.ok (some id), (reached, form)) →
      ∃ arguments typeArguments, Rearranges form.arguments arguments ∧
        form.typeArguments.Perm typeArguments ∧
        resolver scope (context, { reference with typeArguments := others }) =
          (.ok (some id), (reached, { form with arguments, typeArguments }))

theorem ignoresOrderOfValues_withHoisting :
    IgnoresOrderOfValues (fun _ => HoistsQuietly load)
      (withHoisting load (withInstances frontEnd load nested (withArguments (named load)))) := by
  intro scope context reached reference form id others quiet perm ends
  obtain ⟨name, own, typeArguments, span, resolved⟩ := reference
  rw [withHoisting, bind_of_ok (by rfl)] at ends ⊢
  have sameAny : others.any hasValueArguments = typeArguments.any hasValueArguments :=
    (perm.any_eq (f := hasValueArguments)).symm
  by_cases valued : typeArguments.any hasValueArguments = true
  · rw [if_pos valued] at ends
    rw [if_pos (sameAny.trans valued)]
    obtain ⟨_, ⟨moved, draft⟩, moves, ends⟩ := ok_of_bind ends
    obtain ⟨taken, stripped, apart, hoists⟩ := hoist_of_quiet quiet moves
    obtain ⟨-, rfl⟩ := Prod.mk.inj (Prod.mk.inj (moves.symm.trans (hoists _ (.refl _)))).2
    have areHoisted : ∀ list, typeArguments.Perm list → AreHoisted (list.flatMap taken) := by
      intro list same value member
      obtain ⟨argument, among, member⟩ := List.mem_flatMap.mp member
      obtain ⟨_, _, -, isHoisted⟩ := (apart argument (same.mem_iff.mpr among)).hoisted value member
      rw [isHoisted]
      exact Hoisted.isHoisted_name _ _
    have named : ∀ argument ∈ typeArguments.map stripped, argument.name.isSome = true := by
      refine List.forall_mem_map.mpr fun argument member => ?_
      rw [(apart argument member).name]
      exact quiet.isSome_name argument member
    have present : typeArguments.map stripped ≠ [] := by
      rintro none
      rw [List.map_eq_nil_iff.mp none] at valued
      exact Bool.false_ne_true valued
    have names : (typeArguments.map stripped).map (·.name) = typeArguments.map (·.name) := by
      rw [List.map_map]
      exact List.map_congr_left fun argument member => (apart argument member).name
    obtain ⟨distinct, arguments, isForm, inAnyOrder⟩ := withInstances_of_hoisted
      ⟨name, own, typeArguments.map stripped, span, resolved⟩ named present
      (areHoisted _ (.refl _)) ends
    obtain ⟨changed, permAfter, endsToo⟩ :=
      inAnyOrder _ _ (areHoisted others perm) (perm.map stripped)
    refine ⟨arguments ++ others.flatMap taken, changed, ?_, permAfter, ?_⟩
    · rw [isForm]
      exact rearranges_of_takesApart apart quiet.named (names ▸ distinct) perm arguments
    · rw [bind_of_ok (hoists others perm)]
      exact endsToo
  · rw [if_neg valued] at ends
    rw [if_neg (mt sameAny.symm.trans valued)]
    obtain ⟨changed, permAfter, endsToo⟩ :=
      ignoresOrder_withInstances overlooks_withArguments_named quiet.isSome_name perm ends
    exact ⟨form.arguments, changed, .refl _, permAfter, endsToo⟩

theorem substituteValues_congr {arguments typeArguments} (target : DefinitionId)
    (rearranges : Rearranges reference.arguments arguments) :
    substituteValues load { reference with arguments, typeArguments } target false =
      substituteValues load reference target false := by
  have sameEmpty : arguments.isEmpty = reference.arguments.isEmpty := by
    rw [Bool.eq_iff_iff, List.isEmpty_iff, List.isEmpty_iff]
    exact ⟨fun none => (none ▸ rearranges.perm).eq_nil,
      fun none => (none ▸ rearranges.perm.symm).eq_nil⟩
  have bindings (definition : Definition) :
      definition.bindings? { reference with arguments, typeArguments } false =
        definition.bindings? reference false := by
    simp only [Definition.bindings?, rearranges.found, sameEmpty]
  simp only [substituteValues, bindings]

/-- The values are taken by their names when a copy is made. -/
theorem ignoresOrderOfValues_withSubstitution {inner : Resolver}
    {Required : Option DefinitionId → Context → Reference → Prop}
    (ignores : IgnoresOrderOfValues Required inner) :
    IgnoresOrderOfValues Required (withSubstitution load inner) := by
  intro scope context reached reference form id others required perm ends
  obtain ⟨target, middle, draft, resolved, -⟩ := ok_of_withSubstitution ends
  rw [withSubstitution_apply resolved] at ends
  obtain ⟨arguments, typeArguments, rearranges, permAfter, resolvedToo⟩ :=
    ignores required perm resolved
  have outside {change : Reference → Reference} (isOutside : IsOutside change) :
      Overlooks change (copied (substituteValues load draft target false) target) :=
    overlooks_copied isOutside _ _
  have sameTypes := OverlooksTypeArguments.typeArguments_eq (fun others =>
    outside (isOutside_typeArguments others)) ends
  have sameValues := Overlooks.arguments_eq (fun arguments =>
    outside (isOutside_arguments fun _ => arguments)) ends
  rw [← sameTypes] at permAfter
  refine ⟨arguments, typeArguments, sameValues ▸ rearranges, permAfter, ?_⟩
  rw [withSubstitution_apply resolvedToo, substituteValues_congr target rearranges]
  exact outside (isOutside_typeArguments typeArguments)
    (outside (isOutside_arguments fun _ => arguments) ends)

/-- Full resolution below the cache, also where values are moved out of type arguments. -/
theorem ignoresOrderOfValues_uncached :
    IgnoresOrderOfValues (fun scope context reference =>
      HoistsQuietly load context (qualified frontEnd scope context reference))
      (uncached frontEnd load) := by
  intro scope context reached reference form id others quiet perm ends
  have ignores : IgnoresOrderOfValues _
      (unqualified frontEnd load (nestedIn frontEnd load reference)) :=
    ignoresOrderOfValues_withSubstitution ignoresOrderOfValues_withHoisting
  obtain ⟨othersToo, permToo, qualifiedToo⟩ := qualified_of_perm perm
  rw [uncached_eq] at ends ⊢
  rw [nestedIn_of_perm perm, qualifiedToo]
  exact ignores quiet permToo ends

end Resolver

end Adl
