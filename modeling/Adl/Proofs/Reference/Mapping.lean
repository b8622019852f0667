import Adl.Proofs.Reference.Hoisting
import Mathlib

namespace Adl

/-! The mapping of type arguments to type parameters as a whole, and what it means for the instance
that is found: the order of type arguments by name makes no difference. -/

namespace TypeArguments

open Step Resolver FrontEnd

/-- Type arguments are mapped if and only if there are parameters for them, and they are by position
and as many, or by name and for each parameter one. Then each parameter is listed once, in the order
of declaration, with the position of its own argument. What is refused has been reported. It is an
internal error to mix both ways. Where type arguments by name are in another order each parameter
keeps its own, and the same instance is found in the same state. So is what all layers below the
cache find: where values are moved out of type arguments, if nothing is loaded to see what these are
for. -/
theorem maps_bijectively (frontEnd : FrontEnd) (load : String → Loading DefinitionId)
    (nested : Resolver) (reference : Reference) (generic : String) (parameters : List String)
    (context : Context) (collects : context.log.policy = .collect) (distinct : parameters.Nodup) :
    let arguments := reference.typeArguments
    let answer := positions reference generic parameters context
    ((∃ found, answer.1 = .ok (some found)) ↔
      parameters ≠ [] ∧ (ByPosition parameters arguments ∨ ByName parameters arguments)) ∧
    (∀ found, answer.1 = .ok (some found) →
      Maps parameters arguments found ∧ answer.2 = context) ∧
    (answer.1 = .ok none → ∃ problems, problems ≠ [] ∧
      (∀ problem ∈ problems, IsComplaint problem ∧ problem ∈ answer.2.log.errors) ∧
      answer.2 = context.collected problems) ∧
    ((∃ problem, answer.1 = .error (.internal problem)) ↔ parameters ≠ [] ∧ Mixes arguments) ∧
    (∀ error, answer.1 = .error error →
      error = .malformed generic
        ("reference '" ++ reference.text ++ "' mixes ordinal and named type arguments")) ∧
    (∀ others, parameters ≠ [] → ByName parameters arguments → arguments.Perm others →
      ∃ found foundToo, answer = (.ok (some found), context) ∧
        positions { reference with typeArguments := others } generic parameters context =
          (.ok (some foundToo), context) ∧
        assigned others foundToo = assigned arguments found) ∧
    IgnoresOrder (·.name.isSome = true)
      (withInstances frontEnd load nested (withArguments (named load))) ∧
    IgnoresOrder (fun argument =>
        argument.name.isSome = true ∧ hasValueArguments argument = false)
      (uncached frontEnd load) ∧
    IgnoresOrderOfValues (fun scope context reference =>
        HoistsQuietly load context (qualified frontEnd scope context reference))
      (uncached frontEnd load) := by
  intro arguments answer
  have verdict : Verdict reference generic parameters context answer :=
    verdict_of_positions reference generic parameters context
  refine ⟨verdict.found_iff collects, fun found => verdict.maps collects distinct,
    verdict.reports collects, verdict.mixes_iff collects, fun error => verdict.error_eq collects,
    fun others declared isNamed perm => ?_,
    ignoresOrder_withInstances overlooks_withArguments_named, ignoresOrder_uncached,
    ignoresOrderOfValues_uncached⟩
  have ends : answer = (.ok (some (placed parameters arguments)), context) :=
    (positions_of_named_iff isNamed.isSome_name).mpr ⟨declared, isNamed, rfl, rfl⟩
  obtain ⟨foundToo, endsToo, same, -⟩ := positions_of_perm isNamed.isSome_name perm ends
  exact ⟨_, foundToo, ends, endsToo, same⟩

/-- A generic composite with a sub-component for each of its two type parameters, two primitives, and
one with a parameter. -/
def choosing : List Definition :=
  [ { Definition.ofKind "a.G" .composite with
      typeParameters := [⟨"A", none, .generated⟩, ⟨"B", none, .generated⟩]
      components :=
        [ ⟨"first", none, some "A", .generated, .none, none, false⟩,
          ⟨"second", none, some "B", .generated, .none, none, false⟩ ] },
    { Definition.ofKind "a.P" .primitive with sources := [.ofPath "p.c"] },
    { Definition.ofKind "a.Q" .primitive with sources := [.ofPath "q.c"] },
    { Definition.ofKind "a.R" .primitive with
      parameters := [⟨"label", .generated⟩]
      sources := [.ofPath "r.c"] } ]

/-- The argument for the second type parameter comes first. -/
def backwards : Reference :=
  { Reference.ofName "a.G" with
    typeArguments :=
      [ ⟨some "B", .definition (.ofName "a.Q"), .generated⟩,
        ⟨some "A", .definition (.ofName "a.P"), .generated⟩ ] }

/-- A reference to the primitive with a parameter, which is given by name or by position. -/
def withLabel (name : Option String) (label : String) : TypeArgumentValue :=
  .definition { Reference.ofName "a.R" with arguments := [⟨name, .string label, .generated⟩] }

/-- The same with values. -/
def valued : Reference :=
  { backwards with
    typeArguments :=
      [ ⟨some "B", withLabel none "y", .generated⟩,
        ⟨some "A", withLabel (some "label") "x", .generated⟩ ] }

/-- The primitive with the parameter is loaded. -/
def prepared : Context :=
  (registeredOnly.load "a.R" (.ofDefinitions .default choosing)).2

theorem hoistsQuietly_valued : HoistsQuietly registeredOnly.load prepared valued where
  named := by decide +kernel
  quiet := by
    have loaded : (peek registeredOnly.load "a.G" prepared).2.cache.find? "a.R" = some 3 := by
      decide +kernel
    have designated : ∀ argument ∈ valued.typeArguments, ∃ part,
        argument.value = .definition part ∧ part.name = "a.R" := by
      simp [valued, withLabel, Reference.ofName]
    intro seen argument member part isPart _
    obtain ⟨_, same, name⟩ := designated argument member
    cases isPart.symm.trans same
    exact context_argumentNames?_of_found (name ▸ loaded)

theorem positions_backwards {reference : Reference} {generic : String} {context : Context}
    {left right : TypeArgumentValue}
    (same : reference.typeArguments =
      [⟨some "B", left, .generated⟩, ⟨some "A", right, .generated⟩]) :
    positions reference generic ["A", "B"] context =
      (.ok (some [("A", 1), ("B", 0)]), context) := by
  have named : ∀ argument ∈ reference.typeArguments, argument.name.isSome = true := by
    simp [same]
  refine (positions_of_named_iff named).mpr ⟨List.cons_ne_nil _ _, ⟨?_, ?_, ?_⟩, ?_, rfl⟩
  · simp [same]
  · simp [same]
  · simp [same]
  · rw [same]
    cbv

/-- What each layer gives decides what is found: the values are moved, the definition is found without
them, the instance is made, and a copy of it takes the values. -/
theorem uncached_of_layers (frontEnd : FrontEnd) (load : String → Loading DefinitionId)
    (context : Context) (reference : Reference) (generic base id : DefinitionId)
    (parameters : List String) (typeArguments : List TypeArgument) (found : List (String × Nat))
    (bindings : TypeBindings)
    (positioned : ∀ reference name context, reference.typeArguments = typeArguments →
      positions reference name parameters context = (.ok (some found), context)) :
    let moved : Except LoadError Unit × Context × Reference := hoist load (context, reference)
    let target : Except LoadError (Option DefinitionId) × Context × Reference :=
      withArguments (named load) none moved.2
    let bound : Except LoadError (Option TypeBindings) × Context × Reference :=
      bindAll (bind frontEnd load (nestedIn frontEnd load reference) none generic) found .empty
        target.2
    let made : Except LoadError (Option DefinitionId) × Context × Reference :=
      requested frontEnd load ⟨generic, bindings⟩ target.2.2.span bound.2
    let copy : Except LoadError (Option DefinitionId) × Context × Reference :=
      copied (substituteValues load made.2.2 base false) base made.2
    reference.typeArguments.any hasValueArguments = true →
    moved.1 = .ok () →
    target.1 = .ok (some generic) →
    (target.2.1.definition generic).typeParameters.map (·.name) = parameters →
    target.2.2.typeArguments = typeArguments →
    typeArguments ≠ [] →
    bound.1 = .ok (some bindings) →
    made.1 = .ok (some base) →
    copy.1 = .ok (some id) →
      uncached frontEnd load none (context, reference) = (.ok (some id), copy.2) := by
  intro moved target bound made copy valued hoists designates declares same present binds makes copies
  subst declares
  have moves : hoist load (context, reference) = (.ok (), moved.2) := Prod.ext hoists rfl
  have isTarget : withArguments (named load) none moved.2 = (.ok (some generic), target.2) :=
    Prod.ext designates rfl
  have isBound : bindAll _ _ _ target.2 = (.ok (some bindings), bound.2) := Prod.ext binds rfl
  have isMade : requested _ _ _ _ bound.2 = (.ok (some base), made.2) := Prod.ext makes rfl
  have isCopy : copied _ _ made.2 = (.ok (some id), copy.2) := Prod.ext copies rfl
  have finds := (withInstances_eq_iff isTarget (same ▸ present)).mpr
    ⟨found, target.2.1, bindings, bound.2.1, bound.2.2, positioned _ _ _ same, isBound, isMade⟩
  have hoisted : withHoisting load (withInstances frontEnd load (nestedIn frontEnd load reference)
      (withArguments (named load))) none (context, reference) = (.ok (some base), made.2) := by
    rw [withHoisting, bind_of_ok (by rfl), if_pos valued, bind_of_ok moves]
    exact finds
  rw [uncached_eq]
  exact (withSubstitution_apply hoisted).trans isCopy

theorem valued_found :
    ∃ found, uncached registeredOnly registeredOnly.load none (prepared, valued) =
        (.ok (some 5), found) ∧
      (found.1.definition 5).name = "a.G<a.R, a.R>(A$label=\"x\",B$label=\"y\")" := by
  have layers := uncached_of_layers registeredOnly registeredOnly.load prepared valued 0 4 5 ["A", "B"]
    [⟨some "B", .definition (.ofName "a.R"), .generated⟩,
      ⟨some "A", .definition (.ofName "a.R"), .generated⟩]
    [("A", 1), ("B", 0)] ((Table.empty.insert "A" (.definition 3)).insert "B" (.definition 3))
    fun _ _ _ => positions_backwards
  exact ⟨_, layers (by decide) (by decide +kernel) (by decide +kernel) (by decide +kernel)
    (by rfl) (List.cons_ne_nil _ _) (by rfl) (by decide +kernel) (by decide +kernel),
    by decide +kernel⟩

/-- The instance is the same as with the arguments in the order of the parameters, and so is the copy
with values, which are moved to the reference in the order of the arguments. -/
theorem backwards_mapped :
    let start := Context.ofDefinitions .default choosing
    let resolve := uncached registeredOnly registeredOnly.load none
    let forwards (reference : Reference) :=
      { reference with typeArguments := reference.typeArguments.reverse }
    Maps ["A", "B"] backwards.typeArguments [("A", 1), ("B", 0)] ∧
    (∃ reached form changed,
      resolve (start, backwards) = (.ok (some 4), (reached, form)) ∧
      resolve (start, forwards backwards) =
        (.ok (some 4), (reached, { form with typeArguments := changed })) ∧
      (reached.definition 4).name = "a.G<a.P, a.Q>") ∧
    ∃ reached form arguments typeArguments,
      resolve (prepared, valued) = (.ok (some 5), (reached, form)) ∧
      resolve (prepared, forwards valued) =
        (.ok (some 5), (reached, { form with arguments, typeArguments })) ∧
      (reached.definition 5).name = "a.G<a.R, a.R>(A$label=\"x\",B$label=\"y\")" := by
  obtain ⟨-, maps, -, -, -, -, -, ignoresOrder, ignoresOrderOfValues⟩ :=
    maps_bijectively registeredOnly registeredOnly.load (named registeredOnly.load) backwards "a.G"
      ["A", "B"] (.ofDefinitions .default choosing) rfl (by decide)
  refine ⟨(maps _ (congrArg (·.1) (positions_backwards rfl))).1, ?_, ?_⟩
  · have succeeds : (uncached registeredOnly registeredOnly.load none
        (.ofDefinitions .default choosing, backwards)).1 = .ok (some 4) := by
      cbv
    have isNamed : ((uncached registeredOnly registeredOnly.load none
        (.ofDefinitions .default choosing, backwards)).2.1.definition 4).name =
          "a.G<a.P, a.Q>" := by
      cbv
    rcases ends : uncached registeredOnly registeredOnly.load none
      (.ofDefinitions .default choosing, backwards) with ⟨result, reached, form⟩
    rw [ends] at succeeds isNamed
    cases succeeds
    have required : ∀ argument ∈ backwards.typeArguments,
        argument.name.isSome = true ∧ hasValueArguments argument = false := by
      simp [backwards, hasValueArguments, Reference.ofName]
    obtain ⟨changed, -, endsToo⟩ := ignoresOrder required (List.reverse_perm _).symm ends
    exact ⟨reached, form, changed, rfl, endsToo, isNamed⟩
  · obtain ⟨⟨reached, form⟩, ends, isNamed⟩ := valued_found
    obtain ⟨arguments, typeArguments, -, -, endsToo⟩ :=
      ignoresOrderOfValues hoistsQuietly_valued (List.reverse_perm _).symm ends
    exact ⟨reached, form, arguments, typeArguments, ends, endsToo, isNamed⟩

end TypeArguments

end Adl
