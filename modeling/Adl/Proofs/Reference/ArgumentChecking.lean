import Adl.Proofs.Loading.Collecting
import Adl.Proofs.Reference.ParameterBinding
import Mathlib.Data.List.Pairwise
import Mathlib.Data.List.Perm.Basic

namespace Adl

open Step Context

/-! Which arguments are accepted. They are matched with the parameters of the target, by position
or by name, and then each value is held against what is known of its parameter. A parameter that
is given on gets its type while the list is checked, so that later arguments are held against
earlier ones. -/

/-! ## Collecting errors -/

/-- Steps that no error stops, and that give types to parameters of the scope only. -/
def Context.collecting (scope : Option Definition) : Discipline Context where
  Valid context := context.log.policy = .collect
  Leads before after := ∀ name parameter, (∀ owner ∈ scope, owner.name ≠ name) →
    after.inferredType? name parameter = before.inferredType? name parameter
  Fails _ := False
  refl _ _ _ _ := rfl
  trans first second name parameter other :=
    (second name parameter other).trans (first name parameter other)

theorem Context.ends_of_collecting {α : Type} {scope : Option Definition} {context : Context}
    {step twin : Loading α} {post : α → Context → Prop}
    (agree : Agree (collecting scope) context step twin post) :
    ∃ value reached, step context = (.ok value, reached) ∧ post value reached := by
  have ended := agree.ended
  rcases outcome : step context with ⟨value | value, reached⟩
  · rw [outcome] at ended
    exact ended.elim
  · rw [outcome] at ended
    exact ⟨value, reached, rfl, ended⟩

namespace Loading

variable {scope : Option Definition} {context : Context} {diagnostic : Diagnostic}

theorem agree_record_collecting (collects : context.log.policy = .collect)
    (isError : diagnostic.isError = true) :
    Agree (collecting scope) context (record diagnostic) (record diagnostic)
      fun _ reached => reached.log.errors ≠ [] := by
  have recorded : diagnostic ∈ (context.collected [diagnostic]).log.errors :=
    Context.mem_errors_collected.mpr (.inr (List.mem_singleton_self diagnostic))
  exact .run (record_of_collecting collects isError) collects (fun _ _ _ => rfl)
    (List.ne_nil_of_mem recorded)

theorem agree_infer_collecting (collects : context.log.policy = .collect) {owner : Definition}
    (parameter : String) (type : ParameterType) :
    Agree (collecting (some owner)) context (infer owner.name parameter type)
      (infer owner.name parameter type) fun previous reached =>
        previous = context.inferredType? owner.name parameter ∧
          reached = context.infer owner.name parameter type := by
  refine .run rfl ((reports_infer ..).policy.trans collects) ?_ ⟨rfl, rfl⟩
  intro name used other
  rw [inferredType?_infer, if_neg fun same => other owner rfl same.1]

end Loading

namespace Arguments

variable {target : Definition} {scope : Option Definition} {context reached : Context}
  {reference form : Reference} {argument : Argument} {arguments : List Argument}

theorem refuse_ends {diagnostics : List Diagnostic} (collects : context.log.policy = .collect)
    (errors : AreErrors diagnostics) (present : diagnostics ≠ []) :
    ∃ reached, refuse diagnostics context = (.ok false, reached) ∧ reached.log.errors ≠ [] := by
  obtain ⟨diagnostic, member⟩ := List.exists_mem_of_ne_nil diagnostics present
  have recorded : diagnostic ∈ (context.collected diagnostics).log.errors :=
    Context.mem_errors_collected.mpr (.inr member)
  exact ⟨_, Step.bind_of_ok (Loading.recordAll_of_collecting collects errors),
    List.ne_nil_of_mem recorded⟩

/-! ## Values -/

/-- The type that is known of the parameter that an argument is for. -/
def expected? (context : Context) (target : Definition) (argument : Argument) :
    Option ParameterType :=
  context.inferredType? target.name (argument.name.getD "")

/-- A parameter of the scope may be given on as a value of a type: it has no other one. -/
def MayForward (context : Context) (scope : Option Definition) (used : String)
    (expected : Option ParameterType) : Prop :=
  ∃ owner, scope = some owner ∧ owner.hasParameter used = true ∧
    ∀ recorded ∈ context.inferredType? owner.name used, ∀ type ∈ expected, recorded = type

/-- The value of an argument is one for its parameter. -/
def Fits (context : Context) (target : Definition) (scope : Option Definition)
    (argument : Argument) : Prop :=
  match argument.value with
  | .reference used => MayForward context scope used (expected? context target argument)
  | literal => ∀ type ∈ expected? context target argument, type.accepts literal = true

/-- Where two arguments give the same parameter on, it is as a value of the same type. -/
def UseAlike (context : Context) (target : Definition) (first second : Argument) : Prop :=
  ∀ used, first.value = .reference used → second.value = .reference used →
    ∀ type ∈ expected? context target first, ∀ other ∈ expected? context target second,
      type = other

theorem UseAlike.refl (argument : Argument) : UseAlike context target argument argument :=
  fun _ _ _ _ isType _ isOther => Option.some.inj (isType.symm.trans isOther)

instance : Std.Symm (UseAlike context target) where
  symm _ _ alike used secondUses firstUses type isType other isOther :=
    (alike used firstUses secondUses other isOther type isType).symm

/-- The type that an argument gives to a parameter of the scope. -/
def given? (context : Context) (target : Definition) (argument : Argument) (used : String) :
    Option ParameterType :=
  if argument.value = .reference used then expected? context target argument else none

/-- What is known of the parameters of the scope after an argument. -/
def Records (scope : Option Definition) (before after : Context)
    (given? : String → Option ParameterType) : Prop :=
  ∀ owner ∈ scope, ∀ used, after.inferredType? owner.name used =
    (before.inferredType? owner.name used).or (given? used)

theorem agree_checkForwarded_exact (collects : context.log.policy = .collect) (span : Span)
    (used : String) (expected : Option ParameterType) :
    Agree (collecting scope) context (checkForwarded span scope used expected)
      (checkForwarded span scope used expected) fun valid reached =>
        (valid = true ↔ MayForward context scope used expected) ∧
        (valid = true →
          Records scope context reached fun name => if used = name then expected else none) := by
  have refused : ∀ {context : Context} {post : Context → Prop} {holds : Prop}
      (kind : DiagnosticKind) (message : String), context.log.policy = .collect → ¬holds →
      Agree (collecting scope) context
        (do Loading.recordError kind span message; return false)
        (do Loading.recordError kind span message; return false)
        fun valid reached => (valid = true ↔ holds) ∧ (valid = true → post reached) :=
    fun kind message collects fails =>
      .bind (Loading.agree_record_collecting collects rfl) fun _ _ valid _ _ =>
        .pure valid ⟨⟨nofun, fun holds => (fails holds).elim⟩, nofun⟩
  unfold checkForwarded
  split
  · rename_i unknown
    refine refused _ _ collects ?_
    rintro ⟨owner, rfl, declared, -⟩
    exact Option.filter_eq_none_iff.mp unknown owner rfl declared
  · rename_i owner found
    obtain ⟨rfl, declared⟩ := Option.filter_eq_some_iff.mp found
    cases expected with
    | none =>
        refine .pure collects ⟨⟨fun _ => ⟨owner, rfl, declared, fun _ _ => nofun⟩, fun _ => rfl⟩,
          fun _ other _ name => ?_⟩
        dsimp only
        rw [ite_self, Option.or_none]
    | some type =>
        have may : MayForward context (some owner) used (some type) ↔
            ∀ recorded ∈ context.inferredType? owner.name used, recorded = type := by
          constructor
          · rintro ⟨_, isScope, -, same⟩ recorded isRecorded
            cases isScope
            exact same recorded isRecorded type rfl
          · exact fun same => ⟨owner, rfl, declared, fun recorded isRecorded _ isType =>
              Option.some.inj isType ▸ same recorded isRecorded⟩
        have records : Records (some owner) context (context.infer owner.name used type)
            fun name => if used = name then some type else none := by
          intro _ isScope name
          cases isScope
          dsimp only
          rw [Loading.inferredType?_infer]
          by_cases same : used = name
          · cases same
            rw [if_pos ⟨rfl, rfl⟩, if_pos rfl]
            cases context.inferredType? owner.name used <;> rfl
          · rw [if_neg fun both => same both.2, if_neg same, Option.or_none]
        refine .bind (Loading.agree_infer_collecting collects used type) ?_
        rintro previous reached valid - ⟨rfl, rfl⟩
        split
        · rename_i absent
          refine .pure valid ⟨⟨fun _ => may.mpr fun recorded isRecorded => ?_, fun _ => rfl⟩,
            fun _ => records⟩
          exact nomatch absent.symm.trans isRecorded
        · rename_i previous found
          split
          · rename_i same
            refine .pure valid ⟨⟨fun _ => may.mpr fun recorded isRecorded => ?_, fun _ => rfl⟩,
              fun _ => records⟩
            exact (Option.some.inj (found.symm.trans isRecorded)).symm.trans same
          · rename_i different
            exact refused _ _ valid fun holds => different (may.mp holds _ found)

/-- One argument is accepted if it fits. -/
theorem agree_checkValue_exact (collects : context.log.policy = .collect) (argument : Argument) :
    Agree (collecting scope) context (checkValue target scope argument)
      (checkValue target scope argument) fun valid reached =>
        (valid = true ↔ Fits context target scope argument) ∧
        (valid = true → Records scope context reached (given? context target argument)) := by
  refine .read rfl ?_
  dsimp only
  split
  · rename_i used isReference
    refine (agree_checkForwarded_exact collects _ used _).mono ?_
    rintro valid reached - - ⟨accepts, records⟩
    refine ⟨?_, fun isValid owner isScope name => ?_⟩
    · rw [accepts, Fits, isReference]
      rfl
    · rw [records isValid owner isScope name]
      simp only [given?, isReference, Value.reference.injEq]
      rfl
  · rename_i isLiteral
    have records : Records scope context context (given? context target argument) := by
      intro owner _ name
      rw [given?, if_neg (isLiteral name), Option.or_none]
    have fits : Fits context target scope argument ↔
        ∀ type ∈ expected? context target argument, type.accepts argument.value = true := by
      unfold Fits
      split
      · rename_i used isReference
        exact absurd isReference (isLiteral used)
      · rfl
    split
    · rename_i untyped
      refine .pure collects ⟨⟨fun _ => fits.mpr fun type known => ?_, fun _ => rfl⟩,
        fun _ => records⟩
      cases untyped.symm.trans known
    · rename_i type typed
      split
      · rename_i accepted
        refine .pure collects ⟨⟨fun _ => fits.mpr fun other known => ?_, fun _ => rfl⟩,
          fun _ => records⟩
        cases typed.symm.trans known
        exact accepted
      · rename_i refused
        refine .bind (Loading.agree_record_collecting collects rfl) fun _ _ valid _ _ => ?_
        refine .pure valid ⟨⟨fun isTrue => (Bool.false_ne_true isTrue).elim, fun holds => ?_⟩,
          fun isTrue => (Bool.false_ne_true isTrue).elim⟩
        exact absurd (fits.mp holds type typed) refused

/-- What is given on is no parameter of the target. -/
theorem expected?_eq (elsewhere : ∀ owner ∈ scope, owner.name ≠ target.name)
    (leads : (collecting scope).Leads context reached) :
    expected? reached target = expected? context target :=
  funext fun _ => leads _ _ elsewhere

/-- What is left of the list is held against the argument that was accepted. -/
theorem fits_after {first : Argument} (elsewhere : ∀ owner ∈ scope, owner.name ≠ target.name)
    (leads : (collecting scope).Leads context reached)
    (records : Records scope context reached (given? context target first))
    (fits : Fits context target scope first) :
    Fits reached target scope argument ↔
      Fits context target scope argument ∧ UseAlike context target first argument := by
  unfold Fits
  rw [expected?_eq elsewhere leads]
  split
  · rename_i used isReference
    constructor
    · rintro ⟨owner, rfl, declared, alike⟩
      have recorded := records owner rfl used
      refine ⟨⟨owner, rfl, declared, fun known isKnown => alike known ?_⟩, ?_⟩
      · rw [recorded, show _ = some known from isKnown, Option.some_or]
        rfl
      · rintro name firstUses secondUses type isType other isOther
        cases isReference.symm.trans secondUses
        rw [given?, if_pos firstUses, show _ = some type from isType] at recorded
        unfold Fits at fits
        rw [firstUses] at fits
        obtain ⟨_, isScope, -, firstAlike⟩ := fits
        cases isScope
        cases known : context.inferredType? owner.name used with
        | none =>
            rw [known, Option.none_or] at recorded
            exact alike type recorded other isOther
        | some earlier =>
            rw [known, Option.some_or] at recorded
            exact (firstAlike earlier known type isType).symm.trans
              (alike earlier recorded other isOther)
    · rintro ⟨⟨owner, rfl, declared, alike⟩, useAlike⟩
      refine ⟨owner, rfl, declared, fun recorded isRecorded type isType => ?_⟩
      rw [records owner rfl used] at isRecorded
      rcases Option.or_eq_some_iff.mp isRecorded with known | ⟨-, isGiven⟩
      · exact alike recorded known type isType
      · unfold given? at isGiven
        split at isGiven
        · rename_i firstUses
          exact useAlike used firstUses isReference recorded isGiven type isType
        · cases isGiven
  · rename_i isLiteral
    exact ⟨fun holds => ⟨holds, fun used _ isReference => absurd isReference (isLiteral used)⟩,
      And.left⟩

theorem agree_checkValues_exact (collects : context.log.policy = .collect)
    (elsewhere : ∀ owner ∈ scope, owner.name ≠ target.name) (arguments : List Argument) :
    Agree (collecting scope) context (checkValues target scope arguments)
      (checkValues target scope arguments) fun valid _ =>
        (valid = true ↔ (∀ argument ∈ arguments, Fits context target scope argument) ∧
          arguments.Pairwise (UseAlike context target)) := by
  induction arguments generalizing context with
  | nil => exact .pure collects ⟨fun _ => ⟨nofun, .nil⟩, fun _ => rfl⟩
  | cons first rest induction =>
      unfold checkValues
      refine .bind (agree_checkValue_exact collects first) ?_
      rintro valid reached validReached leads ⟨accepts, records⟩
      refine .bind (induction validReached) ?_
      intro others later validLater _ areValid
      refine .pure validLater ?_
      have alike : UseAlike reached target = UseAlike context target := by
        unfold UseAlike
        rw [expected?_eq elsewhere leads]
      rw [Bool.and_eq_true, List.forall_mem_cons, List.pairwise_cons, accepts, areValid, alike,
        and_assoc]
      refine and_congr_right fun fits => ?_
      have after : (∀ argument ∈ rest, Fits reached target scope argument) ↔
          (∀ argument ∈ rest, Fits context target scope argument) ∧
            ∀ argument ∈ rest, UseAlike context target first argument := by
        rw [← forall₂_and]
        exact forall₂_congr fun argument _ =>
          fits_after elsewhere leads (records (accepts.mpr fits)) fits
      rw [after, and_assoc]

/-! ## Names -/

/-- The arguments that the parameters get: by position one for each in turn, which is named
after it, or by name one for each. -/
inductive Matches (target : Definition) (relevant : List Argument) : List Argument → Prop
  | byPosition (unnamed : ∀ argument ∈ relevant, argument.name = none)
      (enough : relevant.length = target.parameters.length) :
      Matches target relevant
        (List.zipWith Argument.withName relevant (target.parameters.map (·.name)))
  | byName (named : ∀ argument ∈ relevant, argument.name.isSome = true)
      (perm : (relevant.map (·.name)).Perm ((target.parameters.map (·.name)).map some)) :
      Matches target relevant relevant

/-- Some arguments are by position and some by name. -/
def Mixes (relevant : List Argument) : Prop :=
  (∃ argument ∈ relevant, argument.name = none) ∧
    ∃ argument ∈ relevant, argument.name.isSome = true

/-- The arguments of a reference with those that are relevant replaced in turn. -/
inductive Replaces (target : Definition) :
    List Argument → List Argument → List Argument → Prop
  | nil : Replaces target [] [] []
  | kept {argument : Argument} {rest bound others : List Argument}
      (irrelevant : isRelevant target argument = false)
      (replaces : Replaces target rest bound others) :
      Replaces target (argument :: rest) bound (argument :: others)
  | replaced {argument other : Argument} {rest bound others : List Argument}
      (relevant : isRelevant target argument = true)
      (replaces : Replaces target rest bound others) :
      Replaces target (argument :: rest) (other :: bound) (other :: others)

theorem Replaces.refl (target : Definition) (arguments : List Argument) :
    Replaces target arguments (arguments.filter (isRelevant target)) arguments := by
  induction arguments with
  | nil => exact .nil
  | cons argument rest induction =>
      cases relevant : isRelevant target argument with
      | true =>
          rw [List.filter_cons_of_pos relevant]
          exact .replaced relevant induction
      | false =>
          rw [List.filter_cons_of_neg (Bool.eq_false_iff.mp relevant)]
          exact .kept relevant induction

theorem replaces_nameByPosition (parameters : List String) (arguments : List Argument)
    (enough : (arguments.filter (isRelevant target)).length = parameters.length) :
    Replaces target arguments
      (List.zipWith Argument.withName (arguments.filter (isRelevant target)) parameters)
      (nameByPosition target parameters arguments) := by
  induction arguments generalizing parameters with
  | nil => exact .nil
  | cons argument rest induction =>
      cases relevant : isRelevant target argument with
      | true =>
          rw [List.filter_cons_of_pos relevant] at enough ⊢
          cases parameters with
          | nil => exact nomatch enough
          | cons parameter parameters =>
              rw [nameByPosition, if_pos relevant]
              exact .replaced relevant (induction parameters (Nat.succ.inj enough))
      | false =>
          rw [List.filter_cons_of_neg (Bool.eq_false_iff.mp relevant)] at enough ⊢
          cases parameters with
          | nil =>
              have unchanged : nameByPosition target [] (argument :: rest) =
                  argument :: nameByPosition target [] rest := by
                cases rest <;> rfl
              rw [unchanged]
              exact .kept relevant (induction [] enough)
          | cons parameter parameters =>
              rw [nameByPosition, if_neg (Bool.eq_false_iff.mp relevant)]
              exact .kept relevant (induction _ enough)

theorem positionProblem?_eq_none_iff {span : Span} {count : Nat} :
    positionProblem? target span count = none ↔ count = target.parameters.length := by
  refine ⟨length_eq_of_no_positionProblem, ?_⟩
  rintro rfl
  simp [positionProblem?]

theorem nameProblems_of_distinct {bound : List String}
    (declared : ∀ argument ∈ arguments, target.hasParameter (argument.name.getD "") = true)
    (distinct : (bound ++ arguments.map (·.name.getD "")).Nodup) :
    nameProblems target bound arguments = ([], bound ++ arguments.map (·.name.getD "")) := by
  induction arguments generalizing bound with
  | nil => rw [nameProblems, List.map_nil, List.append_nil]
  | cons argument rest induction =>
      obtain ⟨isDeclared, areDeclared⟩ := List.forall_mem_cons.mp declared
      rw [List.map_cons, List.append_cons] at distinct ⊢
      have fresh : argument.name.getD "" ∉ bound := fun member =>
        (List.nodup_append.mp (List.nodup_append.mp distinct).1).2.2 _ member _
          (List.mem_singleton_self _) rfl
      rw [nameProblems]
      dsimp only
      rw [isDeclared, Bool.not_true, if_neg Bool.false_ne_true,
        if_neg (by rwa [List.contains_iff_mem])]
      exact induction areDeclared distinct

/-- Nothing is wrong with arguments by name if they are in bijection with the parameters. -/
theorem namedProblems_eq_nil_iff (span : Span)
    (distinct : (target.parameters.map (·.name)).Nodup)
    (named : ∀ argument ∈ arguments, argument.name.isSome = true) :
    namedProblems target span arguments = [] ↔
      (arguments.map (·.name)).Perm ((target.parameters.map (·.name)).map some) := by
  have distinctSome : ((target.parameters.map (·.name)).map some).Nodup :=
    distinct.map fun _ _ => Option.some.inj
  constructor
  · intro silent
    have bind := bind_of_no_namedProblems named silent
    refine (List.perm_ext_iff_of_nodup (bind.once distinct) distinctSome).mpr fun name => ?_
    simp only [List.map_map, List.mem_map]
    constructor
    · rintro ⟨argument, member, rfl⟩
      obtain ⟨parameter, declared, same⟩ := bind.named argument member
      exact ⟨parameter, declared, same.symm⟩
    · rintro ⟨parameter, declared, rfl⟩
      exact bind.bound parameter declared
  · intro perm
    have name_eq : ∀ argument ∈ arguments, argument.name = some (argument.name.getD "") := by
      intro argument member
      obtain ⟨name, isName⟩ := Option.isSome_iff_exists.mp (named argument member)
      rw [isName, Option.getD_some]
    have names : (arguments.map (·.name.getD "")).map some = arguments.map (·.name) := by
      rw [List.map_map]
      exact List.map_congr_left fun argument member => (name_eq argument member).symm
    have permNames : (arguments.map (·.name.getD "")).Perm (target.parameters.map (·.name)) := by
      refine (List.map_perm_map_iff (fun _ _ => Option.some.inj)).mp ?_
      rwa [names]
    have problems : nameProblems target [] arguments =
        ([], arguments.map (·.name.getD "")) := by
      refine nameProblems_of_distinct (fun argument member => ?_) (permNames.nodup_iff.mpr distinct)
      obtain ⟨parameter, declared, same⟩ :=
        List.mem_map.mp (permNames.subset (List.mem_map_of_mem member))
      exact List.any_eq_true.mpr ⟨parameter, declared, beq_iff_eq.mpr same⟩
    have all : (target.parameters.find? fun parameter =>
        !(arguments.map (·.name.getD "")).contains parameter.name) = none := by
      refine List.find?_eq_none.mpr fun parameter declared => ?_
      rw [Bool.not_eq_true', Bool.not_eq_false, List.contains_iff_mem]
      exact permNames.mem_iff.mpr (List.mem_map_of_mem declared)
    rw [namedProblems, problems]
    dsimp only
    rw [all]
    rfl

/-! ## The check -/

/-- Values are accepted where all fit and the uses of a parameter are alike. -/
theorem checkValues_ends (collects : context.log.policy = .collect)
    (elsewhere : ∀ owner ∈ scope, owner.name ≠ target.name) (bound : List Argument) :
    ∃ valid reached, checkValues target scope bound context = (.ok valid, reached) ∧
      (valid = true ↔ (∀ argument ∈ bound, Fits context target scope argument) ∧
        ∀ first ∈ bound, ∀ second ∈ bound, UseAlike context target first second) ∧
      (valid = false → reached.log.errors ≠ []) := by
  obtain ⟨valid, reached, ends, accepts⟩ :=
    ends_of_collecting (agree_checkValues_exact collects elsewhere bound)
  obtain ⟨-, -, recorded⟩ := (agree_checkValues target scope bound).of_ok ends
  have pairs : bound.Pairwise (UseAlike context target) ↔
      ∀ first ∈ bound, ∀ second ∈ bound, UseAlike context target first second := by
    refine ⟨fun alike first member second other => ?_, List.pairwise_of_forall_mem_list⟩
    exact alike.forall_of_forall (fun argument _ => UseAlike.refl argument) member other
  rw [pairs] at accepts
  exact ⟨valid, reached, ends, accepts, recorded⟩

/-- How a check goes: the arguments do not match the parameters, or they do and their values
are checked. -/
inductive Verdict (target : Definition) (scope : Option Definition) (context : Context)
    (reference : Reference) : Except LoadError Bool × Context × Reference → Prop
  | refused (diagnostics : List Diagnostic) (errors : AreErrors diagnostics)
      (present : diagnostics ≠ [])
      (unmatched : ∀ bound, ¬Matches target (reference.arguments.filter (isRelevant target)) bound)
      (uniform : ¬(target.parameters ≠ [] ∧
        Mixes (reference.arguments.filter (isRelevant target)))) :
      Verdict target scope context reference
        ((refuse diagnostics context).1, (refuse diagnostics context).2, reference)
  | mixed (occupied : target.parameters ≠ [])
      (mixes : Mixes (reference.arguments.filter (isRelevant target))) :
      Verdict target scope context reference
        (.error (.malformed target.name ("reference '" ++
          Argument.listText (reference.arguments.filter (isRelevant target)) ++
            "' mixes ordinal and named arguments")), context, reference)
  | checked {bound arguments : List Argument}
      (isMatch : Matches target (reference.arguments.filter (isRelevant target)) bound)
      (replaces : Replaces target reference.arguments bound arguments) :
      Verdict target scope context reference
        ((checkValues target scope bound context).1, (checkValues target scope bound context).2,
          { reference with arguments })

theorem not_matches_of_length {relevant bound : List Argument}
    (different : relevant.length ≠ target.parameters.length) :
    ¬Matches target relevant bound := by
  rintro (⟨-, enough⟩ | ⟨-, perm⟩)
  · exact different enough
  · exact different (by simpa using perm.length_eq)

theorem Matches.not_mixes {relevant bound : List Argument}
    (isMatch : Matches target relevant bound) : ¬Mixes relevant := by
  rintro ⟨⟨ordinal, isOrdinal, noName⟩, argument, member, named⟩
  rcases isMatch with ⟨unnamed, -⟩ | ⟨areNamed, -⟩
  · rw [unnamed argument member] at named
    exact nomatch named
  · have isNamed := areNamed ordinal isOrdinal
    rw [noName] at isNamed
    exact nomatch isNamed

/-- Only one list matches the parameters. -/
theorem Matches.unique {relevant bound other : List Argument}
    (isMatch : Matches target relevant bound) (isOther : Matches target relevant other) :
    bound = other := by
  have empty : (∀ argument ∈ relevant, argument.name = none) →
      (∀ argument ∈ relevant, argument.name.isSome = true) → relevant = [] := by
    intro unnamed named
    refine List.eq_nil_iff_forall_not_mem.mpr fun argument member => ?_
    have isNamed := named argument member
    rw [unnamed argument member] at isNamed
    exact nomatch isNamed
  rcases isMatch with ⟨unnamed, -⟩ | ⟨named, -⟩ <;>
    rcases isOther with ⟨otherUnnamed, -⟩ | ⟨otherNamed, -⟩
  · rfl
  · cases empty unnamed otherNamed
    rfl
  · cases empty otherUnnamed named
    rfl
  · rfl

theorem verdict_of_check (distinct : (target.parameters.map (·.name)).Nodup) :
    Verdict target scope context reference (check target scope (context, reference)) := by
  have run : check target scope (context, reference) = _ := Step.bind_of_ok rfl
  rw [run]
  have same : ⟨reference.name, reference.arguments, reference.typeArguments, reference.span,
      reference.resolved⟩ = reference := by
    cases reference
    rfl
  have whole := Replaces.refl target reference.arguments
  have positional := @replaces_nameByPosition target
    (target.parameters.map (·.name)) reference.arguments
  have refuses : ∀ diagnostics, AreErrors diagnostics → diagnostics ≠ [] →
      (∀ bound, ¬Matches target (reference.arguments.filter (isRelevant target)) bound) →
      ¬(target.parameters ≠ [] ∧ Mixes (reference.arguments.filter (isRelevant target))) →
      Verdict target scope context reference
        ((liftM (refuse diagnostics) : Revising Reference Bool) (context, reference)) :=
    fun diagnostics errors present unmatched uniform =>
      .refused diagnostics errors present unmatched uniform
  have checks : ∀ {bound arguments : List Argument},
      Matches target (reference.arguments.filter (isRelevant target)) bound →
      Replaces target reference.arguments bound arguments →
      Verdict target scope context reference
        ((liftM (checkValues target scope bound) : Revising Reference Bool)
          (context, { reference with arguments })) :=
    fun isMatch replaces => .checked isMatch replaces
  have mixed := @Verdict.mixed target scope context reference
  revert whole positional refuses checks mixed
  generalize reference.arguments.filter (isRelevant target) = relevant
  intro whole positional refuses checks mixed
  dsimp only
  split
  · rename_i noParameters
    have none : target.parameters = [] := by simpa using noParameters
    split
    · rename_i irrelevant
      cases List.isEmpty_iff.mp irrelevant
      have ends : checkValues target scope [] context = (.ok true, context) := by
        rw [checkValues]
        rfl
      have verdict := checks (.byName nofun (by rw [none]; exact .nil)) whole
      rw [Drafting.lift_apply, ends, same] at verdict
      exact verdict
    · rename_i occupied
      refine refuses _ (areErrors_singleton rfl) (List.cons_ne_nil _ _)
        (fun bound => not_matches_of_length ?_) fun holds => holds.1 none
      rw [none]
      simpa using occupied
  · rename_i declared
    have some : target.parameters ≠ [] := by simpa using declared
    split
    · rename_i irrelevant
      cases List.isEmpty_iff.mp irrelevant
      refine refuses _ (areErrors_singleton rfl) (List.cons_ne_nil _ _)
        (fun bound => not_matches_of_length (List.length_pos_of_ne_nil some).ne) ?_
      rintro ⟨-, ⟨_, member, -⟩, -⟩
      exact nomatch member
    · rename_i present
      split
      · rename_i unnamed
        have areUnnamed : ∀ argument ∈ relevant, argument.name = none := by
          simpa using unnamed
        cases problem : positionProblem? target reference.span relevant.length with
        | some diagnostic =>
          refine refuses _ (areErrors_singleton (isError_of_positionProblem? _ _ problem))
            (List.cons_ne_nil _ _) (fun bound => not_matches_of_length fun enough => ?_) ?_
          · rw [positionProblem?_eq_none_iff.mpr enough] at problem
            exact nomatch problem
          · rintro ⟨-, -, argument, member, named⟩
            rw [areUnnamed argument member] at named
            exact nomatch named
        | none =>
          have enough := positionProblem?_eq_none_iff.mp problem
          exact checks (.byPosition areUnnamed enough)
            (positional (enough.trans (List.length_map _).symm))
      · rename_i notUnnamed
        have someNamed : ∃ argument ∈ relevant, argument.name.isSome = true := by
          simpa [Option.isSome_iff_ne_none] using notUnnamed
        split
        · rename_i someUnnamed
          exact mixed some ⟨by simpa using someUnnamed, someNamed⟩
        · rename_i noneUnnamed
          have areNamed : ∀ argument ∈ relevant, argument.name.isSome = true := by
            simpa [Option.isSome_iff_ne_none] using noneUnnamed
          have perm_iff := namedProblems_eq_nil_iff reference.span distinct areNamed
          have areErrors := areErrors_namedProblems target reference.span relevant
          cases problems : namedProblems target reference.span relevant with
          | nil =>
              have verdict := checks (.byName areNamed (perm_iff.mp problems)) whole
              rw [same] at verdict
              exact verdict
          | cons diagnostic rest =>
              rw [problems] at areErrors perm_iff
              refine refuses _ areErrors (List.cons_ne_nil _ _) (fun bound => ?_) ?_
              · rintro (⟨unnamed, -⟩ | ⟨-, perm⟩)
                · obtain ⟨argument, member, named⟩ := someNamed
                  rw [unnamed argument member] at named
                  exact nomatch named
                · exact nomatch perm_iff.mpr perm
              · rintro ⟨-, ⟨argument, member, unnamed⟩, -⟩
                have named := areNamed argument member
                rw [unnamed] at named
                exact nomatch named

/-- The arguments of a reference are accepted if and only if they match the parameters of the
target and each value fits, where what is given on twice is used alike. By position they are
named then. The check fails only where some arguments are by position and some by name, and
says what is wrong otherwise. -/
theorem accepts_exactly_wellFormed (target : Definition) (scope : Option Definition)
    (context : Context) (reference : Reference) (collects : context.log.policy = .collect)
    (distinct : (target.parameters.map (·.name)).Nodup)
    (elsewhere : ∀ owner ∈ scope, owner.name ≠ target.name) :
    let relevant := reference.arguments.filter (isRelevant target)
    let answer := check target scope (context, reference)
    (answer.1 = .ok true ↔ ∃ bound, Matches target relevant bound ∧
      (∀ argument ∈ bound, Fits context target scope argument) ∧
      ∀ first ∈ bound, ∀ second ∈ bound, UseAlike context target first second) ∧
    ((∃ problem, answer.1 = .error (.internal problem)) ↔
      target.parameters ≠ [] ∧ Mixes relevant) ∧
    (∀ error, answer.1 = .error error →
      error = .malformed target.name ("reference '" ++ Argument.listText relevant ++
        "' mixes ordinal and named arguments")) ∧
    (answer.1 = .ok false → answer.2.1.log.errors ≠ []) ∧
    (answer.1 = .ok true → ∃ bound arguments, Matches target relevant bound ∧
      Replaces target reference.arguments bound arguments ∧
      answer.2.2 = { reference with arguments }) := by
  intro relevant answer
  have verdict : Verdict target scope context reference answer := verdict_of_check distinct
  revert verdict
  generalize answer = answer
  rintro (⟨diagnostics, errors, present, unmatched, uniform⟩ | ⟨occupied, mixes⟩ |
    @⟨bound, arguments, isMatch, replaces⟩)
  · obtain ⟨reached, ends, recorded⟩ := refuse_ends collects errors present
    rw [ends]
    refine ⟨⟨nofun, fun ⟨bound, isMatch, _⟩ => (unmatched bound isMatch).elim⟩,
      ⟨fun ⟨_, failed⟩ => (nomatch failed), fun mixes => (uniform mixes).elim⟩,
      nofun, fun _ => recorded, nofun⟩
  · refine ⟨⟨nofun, ?_⟩, ⟨fun _ => ⟨occupied, mixes⟩, fun _ => ⟨_, rfl⟩⟩, ?_, nofun, nofun⟩
    · rintro ⟨bound, isMatch, -⟩
      exact (isMatch.not_mixes mixes).elim
    · rintro error failed
      cases failed
      rfl
  · obtain ⟨valid, reached, ends, accepts, recorded⟩ := checkValues_ends collects elsewhere bound
    rw [ends]
    refine ⟨?_, ⟨fun ⟨_, failed⟩ => (nomatch failed), fun mixes => (isMatch.not_mixes mixes.2).elim⟩,
      nofun, fun isFalse => recorded (Except.ok.inj isFalse),
      fun _ => ⟨bound, arguments, isMatch, replaces, rfl⟩⟩
    rw [Except.ok.injEq, accepts]
    refine ⟨fun holds => ⟨bound, isMatch, holds⟩, ?_⟩
    rintro ⟨other, isOther, holds⟩
    exact isMatch.unique isOther ▸ holds

/-- A primitive that takes a number and a text. -/
def labelled : Definition :=
  ((Definition.ofKind "a.Q" .primitive).ensureParameter "size").ensureParameter "label"

/-- The types of its parameters are known. -/
def labelledTypes : Context :=
  ((Context.ofOptions .default).infer "a.Q" "size" .integer).infer "a.Q" "label" .string

/-- A composite with a parameter. -/
def measuring : Definition :=
  (Definition.ofKind "a.Top" .composite).ensureParameter "n"

/-- A reference to the primitive that gives the parameter on as the number. -/
def sizedBy (label : Value) : Reference :=
  ⟨"a.Q", [⟨none, .reference "n", .generated⟩, ⟨none, label, .generated⟩], [], .generated, none⟩

/-- The parameter is given on as a number, and cannot be given on as a text as well. -/
theorem given_on_alike :
    (check labelled (some measuring) (labelledTypes, sizedBy (.string "x"))).1 = .ok true ∧
      (check labelled (some measuring) (labelledTypes, sizedBy (.reference "n"))).1 ≠ .ok true := by
  have collects : labelledTypes.log.policy = .collect := by decide +kernel
  have distinct : (labelled.parameters.map (·.name)).Nodup := by decide +kernel
  have elsewhere : ∀ owner ∈ some measuring, owner.name ≠ labelled.name := by
    rintro _ ⟨⟩
    decide +kernel
  have types : labelledTypes.inferredType? "a.Q" "size" = some .integer ∧
      labelledTypes.inferredType? "a.Q" "label" = some .string ∧
      labelledTypes.inferredType? "a.Top" "n" = none := by
    decide +kernel
  have byPosition : ∀ label, Matches labelled
      ((sizedBy label).arguments.filter (isRelevant labelled))
      [⟨some "size", .reference "n", .generated⟩, ⟨some "label", label, .generated⟩] :=
    fun label => .byPosition (by simp [sizedBy]) rfl
  constructor
  · refine (accepts_exactly_wellFormed labelled (some measuring) labelledTypes _ collects distinct
      elsewhere).1.mpr ⟨_, byPosition _, ?fits, ?alike⟩
    case fits =>
      refine List.forall_mem_cons.mpr ⟨⟨measuring, rfl, rfl, fun _ known => ?_⟩,
        List.forall_mem_singleton.mpr fun type known => ?_⟩
      · exact nomatch types.2.2.symm.trans known
      · cases types.2.1.symm.trans known
        rfl
    case alike =>
      have only : ∀ argument ∈ ([⟨some "size", .reference "n", .generated⟩,
          ⟨some "label", .string "x", .generated⟩] : List Argument), ∀ used,
            argument.value = .reference used →
              argument = ⟨some "size", .reference "n", .generated⟩ := by
        simp
      intro first member second other used firstUses secondUses
      cases only first member used firstUses
      cases only second other used secondUses
      exact UseAlike.refl _ used firstUses secondUses
  · intro accepted
    obtain ⟨bound, isMatch, -, alike⟩ := (accepts_exactly_wellFormed labelled (some measuring)
      labelledTypes _ collects distinct elsewhere).1.mp accepted
    cases isMatch.unique (byPosition _)
    exact nomatch alike _ List.mem_cons_self _ (List.mem_cons_of_mem _ List.mem_cons_self) "n" rfl
      rfl .integer types.1 .string types.2.1

end Arguments

end Adl
