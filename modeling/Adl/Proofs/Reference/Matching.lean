import Adl.Binding.Compatibility
import Adl.Proofs.Loading.Steps
import Adl.Proofs.Reference.Nesting
import Adl.Reference.Arguments
import Adl.Reference.TypeArguments

namespace Adl

open Step

/-! The arguments of references are refused only with an error. -/

variable {context : Context}

/-- Errors of a list that is not empty. -/
def AreErrors (diagnostics : List Diagnostic) : Prop :=
  ∀ diagnostic ∈ diagnostics, diagnostic.isError = true

theorem Loading.agree_recordErrors {diagnostics : List Diagnostic}
    (errors : AreErrors diagnostics) (present : diagnostics ≠ []) :
    Agree Context.reporting context (Loading.recordAll diagnostics)
      (Loading.recordAll diagnostics) fun _ reached => reached.log.errors ≠ [] := by
  obtain ⟨first, member⟩ := List.exists_mem_of_ne_nil diagnostics present
  exact (Loading.agree_recordAll diagnostics).mono fun _ _ _ _ recorded =>
    recorded first member (errors first member)

theorem areErrors_singleton {diagnostic : Diagnostic} (isError : diagnostic.isError = true) :
    AreErrors [diagnostic] := by
  intro other member
  rw [List.mem_singleton.mp member]
  exact isError

/-! ## Type arguments -/

namespace TypeArguments

variable (reference : Reference) (generic : String) (parameters : List String)

theorem agree_refuse {diagnostics : List Diagnostic} (errors : AreErrors diagnostics)
    (present : diagnostics ≠ []) {strict : Prop}
    {post : List (String × Nat) → Context → Prop} :
    Agree Context.reporting context (refuse diagnostics) (refuse diagnostics)
      (Answers strict post) := by
  refine .bind (Loading.agree_recordErrors errors present) ?_
  intro _ reached _ _ recorded
  exact .pure trivial fun _ => recorded

theorem isError_of_positionProblem? {count : Nat} {diagnostic : Diagnostic}
    (problem : positionProblem? reference generic parameters count = some diagnostic) :
    diagnostic.isError = true := by
  unfold positionProblem? at problem
  split at problem
  · cases problem
    rfl
  · split at problem <;> cases problem
    rfl

theorem length_eq_of_no_positionProblem {count : Nat}
    (none : positionProblem? reference generic parameters count = none) :
    parameters.length = count := by
  unfold positionProblem? at none
  split at none
  · cases none
  · rename_i beyond
    have enough := List.getElem?_eq_none_iff.mp beyond
    split at none
    · cases none
    · omega

theorem areErrors_positionsByName (bound : List (String × Nat)) (position : Nat)
    (arguments : List TypeArgument) :
    AreErrors (positionsByName generic parameters bound position arguments).2 := by
  induction arguments generalizing bound position with
  | nil => exact fun _ member => nomatch member
  | cons argument rest induction =>
      unfold positionsByName
      dsimp only
      split
      · exact List.forall_mem_cons.mpr ⟨rfl, induction bound (position + 1)⟩
      · split
        · exact List.forall_mem_cons.mpr ⟨rfl, induction bound (position + 1)⟩
        · exact induction _ (position + 1)

theorem positionsByName_lt {bound : List (String × Nat)} {position limit : Nat}
    {arguments : List TypeArgument} (known : ∀ entry ∈ bound, entry.2 < limit)
    (room : position + arguments.length ≤ limit) :
    ∀ entry ∈ (positionsByName generic parameters bound position arguments).1,
      entry.2 < limit := by
  induction arguments generalizing bound position with
  | nil => exact known
  | cons argument rest induction =>
      have later : position + 1 + rest.length ≤ limit := by
        rw [List.length_cons] at room
        omega
      unfold positionsByName
      dsimp only
      split
      · exact induction known later
      · split
        · exact induction known later
        · refine induction ?_ later
          intro entry member
          rcases List.mem_append.mp member with old | new
          · exact known entry old
          · rw [List.mem_singleton.mp new]
            exact Nat.lt_of_lt_of_le (Nat.lt_add_of_pos_right (Nat.succ_pos _)) room

/-- The parameters were placed: each got an argument that there is, and where the arguments have
no labels they stand for the parameters in turn. -/
structure Places (reference : Reference) (parameters : List String)
    (found : List (String × Nat)) : Prop where
  within : ∀ entry ∈ found, entry.2 < reference.typeArguments.length
  ordinal : (∀ argument ∈ reference.typeArguments, argument.name = none) →
    found = parameters.zip (List.range parameters.length) ∧
      parameters.length = reference.typeArguments.length
  present : reference.typeArguments ≠ []

theorem Places.of_typeArguments {changed reference : Reference} {parameters : List String}
    {found : List (String × Nat)} (places : Places changed parameters found)
    (same : changed.typeArguments = reference.typeArguments) : Places reference parameters found where
  within := same ▸ places.within
  ordinal := same ▸ places.ordinal
  present := same ▸ places.present

/-- Each parameter is given its place. -/
theorem agree_positions (strict : Prop) :
    Agree Context.reporting context (positions reference generic parameters)
      (positions reference generic parameters)
      (Answers strict fun found _ => Places reference parameters found) := by
  unfold positions
  dsimp only
  split
  · exact agree_refuse (areErrors_singleton rfl) (List.cons_ne_nil _ _)
  · split
    · exact agree_refuse (areErrors_singleton rfl) (List.cons_ne_nil _ _)
    · rename_i occupied
      have present : reference.typeArguments ≠ [] := by simpa using occupied
      split
      · split
        · rename_i diagnostic problem
          exact agree_refuse
            (areErrors_singleton (isError_of_positionProblem? _ _ _ problem))
            (List.cons_ne_nil _ _)
        · rename_i noProblem
          have enough := length_eq_of_no_positionProblem _ _ _ noProblem
          refine .pure trivial ⟨fun entry member => ?_, fun _ => ⟨rfl, enough⟩, present⟩
          exact enough ▸ List.mem_range.mp (List.of_mem_zip member).2
      · rename_i labelled
        split
        · exact .fail trivial (LoadError.isGrave_internal _)
        · split
          · rename_i wrong
            refine agree_refuse (areErrors_positionsByName _ _ _ _ _) ?_
            intro empty
            rw [empty] at wrong
            cases wrong
          · split
            · exact agree_refuse (areErrors_singleton rfl) (List.cons_ne_nil _ _)
            · refine .pure trivial ⟨fun entry member => ?_, fun unlabelled => ?_, present⟩
              · have bounded : ∀ entry ∈
                    (positionsByName generic parameters [] 0 reference.typeArguments).1,
                    entry.2 < reference.typeArguments.length :=
                  positionsByName_lt generic parameters (by simp) (Nat.le_of_eq (Nat.zero_add _))
                exact bounded entry (List.mem_mergeSort.mp member)
              · exact absurd (List.all_eq_true.mpr fun argument member =>
                  Option.isNone_iff_eq_none.mpr (unlabelled argument member)) labelled

end TypeArguments

/-! ## Value arguments -/

/-- A reference has the type arguments and the decoration of another one. -/
structure Reference.KeepsTypes (changed reference : Reference) : Prop where
  typeArguments : changed.typeArguments = reference.typeArguments
  resolved : changed.resolved = reference.resolved

namespace Arguments

variable (target : Definition) (span : Span)

theorem isError_of_positionProblem? {count : Nat} {diagnostic : Diagnostic}
    (problem : positionProblem? target span count = some diagnostic) :
    diagnostic.isError = true := by
  unfold positionProblem? at problem
  dsimp only at problem
  split at problem
  · cases problem
    rfl
  · split at problem <;> cases problem
    rfl

theorem areErrors_nameProblems (bound : List String) (arguments : List Argument) :
    AreErrors (nameProblems target bound arguments).1 := by
  induction arguments generalizing bound with
  | nil => exact fun _ member => nomatch member
  | cons argument rest induction =>
      unfold nameProblems
      dsimp only
      split
      · exact List.forall_mem_cons.mpr ⟨rfl, induction bound⟩
      · split
        · exact List.forall_mem_cons.mpr ⟨rfl, induction bound⟩
        · exact induction _

theorem areErrors_namedProblems (arguments : List Argument) :
    AreErrors (namedProblems target span arguments) := by
  unfold namedProblems
  dsimp only
  split
  · intro diagnostic member
    rw [Option.mem_toList, Option.map_eq_some_iff] at member
    obtain ⟨parameter, -, rfl⟩ := member
    rfl
  · exact areErrors_nameProblems target [] arguments

theorem agree_checkForwarded (scope : Option Definition) (used : String)
    (expected : Option ParameterType) :
    Agree Context.reporting context (checkForwarded span scope used expected)
      (checkForwarded span scope used expected)
      fun valid reached => valid = false → reached.log.errors ≠ [] := by
  have refused : ∀ {context : Context} (kind : DiagnosticKind) (message : String),
      Agree Context.reporting context
        (do Loading.recordError kind span message; return false)
        (do Loading.recordError kind span message; return false)
        fun valid reached => valid = false → reached.log.errors ≠ [] := by
    intro context kind message
    refine .bind (Loading.agree_recordError _ _ _) ?_
    intro _ reached _ _ recorded
    exact .pure trivial fun _ => recorded
  unfold checkForwarded
  split
  · exact refused _ _
  · split
    · exact .pure trivial nofun
    · refine .bind (Loading.agree_infer _ _ _) ?_
      intro previous reached _ _ _
      cases previous with
      | none => exact .pure trivial nofun
      | some previous =>
          dsimp only
          split
          · exact .pure trivial nofun
          · exact refused _ _

theorem agree_checkValue (scope : Option Definition) (argument : Argument) :
    Agree Context.reporting context (checkValue target scope argument)
      (checkValue target scope argument)
      fun valid reached => valid = false → reached.log.errors ≠ [] := by
  refine .read rfl ?_
  dsimp only
  split
  · exact agree_checkForwarded _ _ _ _
  · split
    · exact .pure trivial nofun
    · split
      · exact .pure trivial nofun
      · refine .bind (Loading.agree_recordError _ _ _) ?_
        intro _ reached _ _ recorded
        exact .pure trivial fun _ => recorded

theorem agree_checkValues (scope : Option Definition) (arguments : List Argument) :
    Agree Context.reporting context (checkValues target scope arguments)
      (checkValues target scope arguments)
      fun valid reached => valid = false → reached.log.errors ≠ [] := by
  induction arguments generalizing context with
  | nil => exact .pure trivial nofun
  | cons argument rest induction =>
      unfold checkValues
      refine .bind (agree_checkValue target scope argument) ?_
      intro valid reached _ _ first
      refine .bind induction ?_
      intro others later _ reports second
      refine .pure trivial fun invalid => ?_
      rcases Bool.and_eq_false_iff.mp invalid with bad | bad
      · exact reports.evolves.errors_ne_nil (first bad)
      · exact second bad

/-- Naming arguments leaves their values alone. -/
theorem values_nameByPosition (target : Definition) (parameters : List String)
    (arguments : List Argument) :
    (nameByPosition target parameters arguments).map (·.value) = arguments.map (·.value) := by
  induction arguments generalizing parameters with
  | nil => rfl
  | cons argument rest induction =>
      cases parameters with
      | nil => rfl
      | cons parameter parameters =>
          unfold nameByPosition
          split
          · rw [List.map_cons, List.map_cons, induction]
            rfl
          · rw [List.map_cons, List.map_cons, induction]

/-- The check may give names to arguments, and fails only with errors. -/
theorem agree_check {Good : Reference → Prop} {reference : Reference}
    (scope : Option Definition) (good : Good reference)
    (renamed : ∀ arguments : List Argument,
      arguments.map (·.value) = reference.arguments.map (·.value) →
        Good { reference with arguments }) :
    Agree (Context.reporting.drafting fun _ => Good) (context, reference)
      (check target scope) (check target scope)
      fun valid pair => pair.2.KeepsTypes reference ∧
        (valid = false → pair.1.log.errors ≠ []) := by
  have lifted : ∀ {context : Context} {draft : Reference} {step : Loading Bool},
      Good draft → draft.KeepsTypes reference →
      Agree Context.reporting context step step
        (fun valid reached => valid = false → reached.log.errors ≠ []) →
      Agree (Context.reporting.drafting fun _ => Good)
        (context, draft)
        (liftM step : Revising Reference Bool) (liftM step)
        fun valid pair => pair.2.KeepsTypes reference ∧
          (valid = false → pair.1.log.errors ≠ []) := by
    intro context draft step good same agree
    refine (Drafting.agree_lift (Discipline.lasting_const Context.reporting _) trivial good
      agree).mono ?_
    rintro valid ⟨reached, _⟩ _ _ ⟨rfl, holds⟩
    exact ⟨same, holds⟩
  have refused : ∀ {diagnostics : List Diagnostic}, AreErrors diagnostics → diagnostics ≠ [] →
      Agree Context.reporting context (refuse diagnostics) (refuse diagnostics)
        fun valid reached => valid = false → reached.log.errors ≠ [] := by
    intro diagnostics errors present
    refine .bind (Loading.agree_recordErrors errors present) ?_
    intro _ reached _ _ recorded
    exact .pure trivial fun _ => recorded
  refine .read rfl ?_
  dsimp only
  split
  · split
    · exact .pure ⟨trivial, good⟩ ⟨⟨rfl, rfl⟩, nofun⟩
    · exact lifted good ⟨rfl, rfl⟩ (refused (areErrors_singleton rfl) (List.cons_ne_nil _ _))
  · split
    · exact lifted good ⟨rfl, rfl⟩ (refused (areErrors_singleton rfl) (List.cons_ne_nil _ _))
    · split
      · split
        · rename_i diagnostic problem
          exact lifted good ⟨rfl, rfl⟩ (refused
            (areErrors_singleton (isError_of_positionProblem? _ _ problem))
            (List.cons_ne_nil _ _))
        · refine .through (fun _ pair => pair.2.KeepsTypes reference)
            (Drafting.agree_modifyDraft trivial
              (renamed _ (values_nameByPosition target _ _)) ⟨rfl, rfl⟩) ?_
          · rintro _ ⟨reached, draft⟩ valid _ same
            exact lifted valid.2 same (agree_checkValues target scope _)
      · split
        · exact .fail ⟨trivial, good⟩ (LoadError.isGrave_internal _)
        · split
          · exact lifted good ⟨rfl, rfl⟩ (agree_checkValues target scope _)
          · rename_i problems present
            exact lifted good ⟨rfl, rfl⟩ (refused (areErrors_namedProblems _ _ _) present)

/-- The check records errors and types, and nothing else. -/
theorem reports_of_check {scope : Option Definition} {reached : Context}
    {reference form : Reference} {valid : Bool}
    (ends : check target scope (context, reference) = (.ok valid, (reached, form))) :
    Context.Reports context reached := by
  have agree : Agree (Context.reporting.drafting fun _ _ => True) (context, reference)
      (check target scope) (check target scope) _ :=
    agree_check _ scope trivial fun _ _ => trivial
  exact (agree.of_ok ends).2.1

end Arguments

/-! ## Conformance -/

namespace Conformance

variable (extends? : String → String → Bool) (value type : Definition) (span : Span)

theorem areErrors_bindingProblems (client server : BoundEnd) :
    AreErrors (bindingProblems extends? value type span client server) := by
  unfold bindingProblems
  split
  · exact fun _ member => nomatch member
  · intro diagnostic member
    obtain ⟨found, -, rfl⟩ := List.mem_map.mp member
    rfl

theorem areErrors_problems : AreErrors (problems extends? value type span) := by
  intro diagnostic member
  rcases List.mem_append.mp member with member | member
  · obtain ⟨required, -, member⟩ := List.mem_flatMap.mp member
    unfold serverProblems at member
    split at member
    · exact areErrors_singleton rfl diagnostic member
    · exact areErrors_bindingProblems _ _ _ _ _ _ diagnostic member
  · obtain ⟨used, -, member⟩ := List.mem_flatMap.mp member
    unfold clientProblems at member
    split at member
    · split at member
      · exact areErrors_singleton rfl diagnostic member
      · exact nomatch member
    · exact areErrors_bindingProblems _ _ _ _ _ _ diagnostic member

end Conformance

end Adl
