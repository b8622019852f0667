import Adl.Proofs.Reference.Resolution

namespace Adl

open Step

/-! Resolution unrolled. To resolve a reference, the references in its type arguments are
resolved, and in theirs, as deep as the reference is nested. What would be done further inside
is never asked for, whatever the loads do. -/

variable {State Draft α β : Type}

/-- The discipline that asks for nothing. -/
def Discipline.free (State : Type) : Discipline State where
  Valid _ := True
  Leads _ _ := True
  Fails _ := True
  refl _ := trivial
  trans _ _ := trivial

theorem Step.agree_free (step : Step State α) (state : State) :
    Agree (.free State) state step step fun _ _ => True where
  same := rfl
  valid := trivial
  leads := trivial
  ended := by
    generalize (step state).1 = result
    cases result <;> exact trivial

/-- Where the same is done beside a draft, both go on from the same state. -/
theorem Drafting.agree_free_bind {Good : Draft → Prop} {state : State} {draft : Draft}
    {step : Step State α} {next nextTwin : α → Drafting State Draft β}
    (good : Good draft)
    (continues : ∀ value reached, Agree ((Discipline.free State).drafting fun _ => Good)
      (reached, draft) (next value) (nextTwin value) fun _ _ => True) :
    Agree ((Discipline.free State).drafting fun _ => Good) (state, draft)
      ((liftM step : Drafting State Draft α) >>= next)
      ((liftM step : Drafting State Draft α) >>= nextTwin) fun _ _ => True :=
  agree_lift_bind (Discipline.lasting_const _ Good) trivial good (agree_free step state)
    fun value reached _ _ _ _ => continues value reached

namespace Resolver

/-- The discipline of references that are nested no deeper than given. -/
abbrev shallow (depth : Nat) : Discipline (Context × Reference) :=
  (Discipline.free Context).drafting fun _ reference => reference.IsWithin depth fun _ => True

abbrev shallowArgument (depth : Nat) : Discipline (Context × TypeArgument) :=
  (Discipline.free Context).drafting fun _ argument => argument.IsWithin depth fun _ => True

/-- Resolvers that do the same with references that are nested no deeper than given, and leave
them so. -/
def SameWithin (depth : Nat) (left right : Resolver) : Prop :=
  ∀ scope context reference, reference.IsWithin depth (fun _ => True) →
    Agree (shallow depth) (context, reference) (left scope) (right scope) fun _ _ => True

variable {frontEnd : FrontEnd} {load : String → Loading DefinitionId} {depth : Nat}
  {inner innerTwin nested nestedTwin : Resolver}

theorem sameWithin_named : SameWithin depth (named load) (named load) := by
  intro scope context reference within
  refine .read rfl (Drafting.agree_free_bind within fun found reached => ?_)
  cases found with
  | none => exact .pure ⟨trivial, within⟩ trivial
  | some id =>
      exact .through (fun _ _ => True)
        (Drafting.agree_modifyDraft trivial (within.congr rfl rfl) trivial)
        fun _ _ valid _ _ => .pure valid trivial

theorem sameWithin_withArguments (same : SameWithin depth inner innerTwin) :
    SameWithin depth (withArguments inner) (withArguments innerTwin) := by
  intro scope context reference within
  refine .bind (same scope context reference within) ?_
  rintro found ⟨reached, draft⟩ valid _ _
  cases found with
  | none => exact .pure valid trivial
  | some target =>
      refine .read rfl (.bind (Drafting.agree_under (Arguments.agree_check _ _ valid.2
        fun _ values => Reference.IsWithin.congr valid.2 values rfl) (fun _ _ _ => trivial)
        (fun _ _ _ => trivial) (fun _ _ => trivial) fun _ _ _ _ within => within) ?_)
      rintro accepted later valid _ _
      cases accepted <;> exact .pure valid trivial

/-! ## Instances -/

variable (nestedSame : ∀ below, depth = below + 1 → SameWithin below nested nestedTwin)
include nestedSame

theorem agree_bind_shallow (scope : Option DefinitionId) (generic : DefinitionId)
    (parameter : String) (context : Context) {argument : TypeArgument}
    (within : argument.IsWithin depth fun _ => True) :
    Agree (shallowArgument depth) (context, argument)
      (bind frontEnd load nested scope generic parameter)
      (bind frontEnd load nestedTwin scope generic parameter) fun _ _ => True := by
  obtain ⟨name, value, span⟩ := argument
  refine .read rfl ?_
  cases value with
  | parameter used =>
      refine .read rfl ?_
      split
      · exact .pure ⟨trivial, within⟩ trivial
      · exact Drafting.agree_free_bind within fun _ _ => .pure ⟨trivial, within⟩ trivial
  | definition reference =>
      cases depth with
      | zero => exact absurd within.nested (Nat.not_succ_le_zero _)
      | succ below =>
          have inside : reference.IsWithin below fun _ => True :=
            ⟨Nat.le_of_succ_le_succ within.nested, within.values⟩
          have found : Agree (shallow below) (context, reference)
              (bindReference load nested scope) (bindReference load nestedTwin scope)
              fun _ _ => True := by
            refine .read rfl ?_
            split
            · exact sameWithin_named scope context reference inside
            · exact nestedSame below rfl scope context reference inside
          refine .bind (Drafting.agree_onPart found
            fun _ part _ _ within => ⟨Nat.succ_le_succ within.nested, within.values⟩) ?_
          rintro found ⟨reached, draft⟩ valid _ _
          cases found with
          | none => exact .pure valid trivial
          | some id =>
              refine Drafting.agree_free_bind valid.2 fun admitted later => ?_
              cases admitted <;> exact .pure ⟨trivial, valid.2⟩ trivial

theorem agree_bindAll_shallow (scope : Option DefinitionId) (generic : DefinitionId)
    (positions : List (String × Nat)) (bindings : TypeBindings) (context : Context)
    {reference : Reference} (within : reference.IsWithin depth fun _ => True) :
    Agree (shallow depth) (context, reference)
      (bindAll (bind frontEnd load nested scope generic) positions bindings)
      (bindAll (bind frontEnd load nestedTwin scope generic) positions bindings)
      fun _ _ => True := by
  induction positions generalizing bindings context reference with
  | nil => exact .pure ⟨trivial, within⟩ trivial
  | cons bound rest induction =>
      obtain ⟨parameter, position⟩ := bound
      obtain ⟨arguments, typeArguments⟩ := Reference.isWithin_iff.mp within
      have here : Agree (shallow depth) (context, reference)
          (atTypeArgument position (bind frontEnd load nested scope generic parameter))
          (atTypeArgument position (bind frontEnd load nestedTwin scope generic parameter))
          fun _ _ => True := by
        refine .read rfl ?_
        split
        · exact .pure ⟨trivial, within⟩ trivial
        · rename_i argument found
          refine (Drafting.agree_onPart (agree_bind_shallow nestedSame scope generic parameter
            context (typeArguments argument (List.mem_of_getElem? found))) ?_).forget
          intro reached changed _ _ shallow
          refine Reference.isWithin_iff.mpr ⟨arguments, fun other member => ?_⟩
          rcases List.mem_or_eq_of_mem_set member with old | rfl
          · exact typeArguments other old
          · exact shallow
      refine .bind here ?_
      rintro found ⟨reached, draft⟩ valid _ _
      cases found with
      | some binding => exact induction _ reached valid.2
      | none =>
          exact .bind (induction _ reached valid.2) fun _ _ valid _ _ => .pure valid trivial

theorem sameWithin_withInstances (same : SameWithin depth inner innerTwin) :
    SameWithin depth (withInstances frontEnd load nested inner)
      (withInstances frontEnd load nestedTwin innerTwin) := by
  intro scope context reference within
  refine .bind (same scope context reference within) ?_
  rintro found ⟨reached, draft⟩ valid _ _
  cases found with
  | none => exact .pure valid trivial
  | some generic =>
      refine .read rfl (.read rfl ?_)
      split
      · exact .pure valid trivial
      · refine Drafting.agree_free_bind valid.2 fun positions later => ?_
        cases positions with
        | none => exact .pure ⟨trivial, valid.2⟩ trivial
        | some positions =>
            refine .bind (agree_bindAll_shallow nestedSame scope generic positions _ later
              valid.2) ?_
            rintro bindings ⟨bound, changed⟩ valid _ _
            cases bindings with
            | none => exact .pure valid trivial
            | some bindings =>
                refine Drafting.agree_free_bind valid.2 fun found last => ?_
                cases found with
                | none => exact .pure ⟨trivial, valid.2⟩ trivial
                | some id =>
                    exact .read rfl (.through (fun _ _ => True)
                      (Drafting.agree_modifyDraft trivial (valid.2.congr rfl rfl) trivial)
                      fun _ _ valid _ _ => .pure valid trivial)

omit nestedSame

/-! ## The other layers -/

theorem sameWithin_withHoisting (same : SameWithin depth inner innerTwin) :
    SameWithin depth (withHoisting load inner) (withHoisting load innerTwin) := by
  intro scope context reference within
  refine .read rfl ?_
  split
  · refine .bind (agree_hoist (fun name context _ => agree_free (load name) context)
      ⟨trivial, within⟩) ?_
    rintro _ ⟨reached, draft⟩ valid _ _
    exact same scope reached draft valid.2
  · exact same scope context reference within

theorem sameWithin_withSubstitution (same : SameWithin depth inner innerTwin) :
    SameWithin depth (withSubstitution load inner) (withSubstitution load innerTwin) := by
  intro scope context reference within
  refine .bind (same scope context reference within) ?_
  rintro found ⟨reached, draft⟩ valid _ _
  cases found with
  | none => exact .pure valid trivial
  | some target =>
      refine .read rfl (Drafting.agree_free_bind valid.2 fun copied later => ?_)
      cases copied with
      | notApplicable => exact .pure ⟨trivial, valid.2⟩ trivial
      | failed => exact .pure ⟨trivial, valid.2⟩ trivial
      | substituted id =>
          exact .read rfl (.through (fun _ _ => True)
            (Drafting.agree_modifyDraft trivial (valid.2.congr rfl rfl) trivial)
            fun _ _ valid _ _ => .pure valid trivial)

theorem sameWithin_withImports (same : SameWithin depth inner innerTwin) :
    SameWithin depth (withImports frontEnd inner) (withImports frontEnd innerTwin) := by
  intro scope context reference within
  cases scope with
  | none => exact same none context reference within
  | some id =>
      refine .read rfl (.through (fun _ _ => True)
        (Drafting.agree_modifyDraft trivial (Qualification.isWithin_qualify _ _ within) trivial) ?_)
      exact fun _ pair valid _ _ => same (some id) pair.1 pair.2 valid.2

theorem sameWithin_withCache (same : SameWithin depth inner innerTwin) :
    SameWithin depth (withCache inner) (withCache innerTwin) := by
  intro scope context reference within
  refine .read rfl (.read rfl ?_)
  dsimp only
  split
  · exact .through (fun _ _ => True)
      (Drafting.agree_modifyDraft trivial (within.congr rfl rfl) trivial)
      fun _ _ valid _ _ => .pure valid trivial
  · refine .bind (same scope context reference within) ?_
    rintro found ⟨reached, draft⟩ valid _ _
    cases found with
    | none => exact .pure valid trivial
    | some id =>
        exact Drafting.agree_free_bind valid.2 fun _ _ => .pure ⟨trivial, valid.2⟩ trivial

/-! ## All layers -/

theorem sameWithin_layers
    (nestedSame : ∀ below, depth = below + 1 → SameWithin below nested nestedTwin) :
    SameWithin depth (ofLayers frontEnd load nested layers)
      (ofLayers frontEnd load nestedTwin layers) :=
  sameWithin_withCache (sameWithin_withImports (sameWithin_withSubstitution
    (sameWithin_withHoisting (sameWithin_withInstances nestedSame
      (sameWithin_withArguments sameWithin_named)))))

/-- Resolution unrolled as often as given; `last` takes what is nested deeper. -/
def unrolled (frontEnd : FrontEnd) (load : String → Loading DefinitionId) (last : Resolver) :
    Nat → Resolver
  | 0 => last
  | levels + 1 => ofLayers frontEnd load (unrolled frontEnd load last levels) layers

theorem sameWithin_unrolled (last lastTwin : Resolver) {levels levelsTwin : Nat}
    (deep : depth < levels) (deepTwin : depth < levelsTwin) :
    SameWithin depth (unrolled frontEnd load last levels)
      (unrolled frontEnd load lastTwin levelsTwin) := by
  induction depth generalizing levels levelsTwin with
  | zero =>
      cases levels with
      | zero => exact absurd deep (Nat.lt_irrefl 0)
      | succ levels =>
          cases levelsTwin with
          | zero => exact absurd deepTwin (Nat.lt_irrefl 0)
          | succ levelsTwin => exact sameWithin_layers nofun
  | succ depth induction =>
      cases levels with
      | zero => exact absurd deep (Nat.not_lt_zero _)
      | succ levels =>
          cases levelsTwin with
          | zero => exact absurd deepTwin (Nat.not_lt_zero _)
          | succ levelsTwin =>
              refine sameWithin_layers fun below equal => ?_
              cases equal
              exact induction (Nat.lt_of_succ_lt_succ deep) (Nat.lt_of_succ_lt_succ deepTwin)

theorem nestedTo_eq_unrolled (frontEnd : FrontEnd) (load : String → Loading DefinitionId)
    (depth : Nat) :
    nestedTo frontEnd load depth =
      unrolled frontEnd load (fun _ => return none) (depth + 1) := by
  induction depth with
  | zero => rfl
  | succ depth induction =>
      change ofLayers frontEnd load (nestedTo frontEnd load depth) layers = _
      rw [induction]
      rfl

/-- A reference is resolved by as many levels as it is nested deep. -/
theorem full_eq_unrolled (last : Resolver) (scope : Option DefinitionId) (context : Context)
    (reference : Reference) {levels : Nat} (deep : reference.nesting < levels) :
    full frontEnd load scope (context, reference) =
      unrolled frontEnd load last levels scope (context, reference) := by
  have drafted : (Drafting.draft : Revising Reference Reference) (context, reference) =
      (.ok reference, (context, reference)) := rfl
  unfold full
  rw [Step.bind_of_ok drafted, nestedTo_eq_unrolled]
  exact (sameWithin_unrolled _ last (Nat.lt_succ_self _) deep scope context reference
    reference.isWithin_self).same

/-- Full resolution is the layers with full resolution inside. -/
theorem full_eq_layers (frontEnd : FrontEnd) (load : String → Loading DefinitionId) :
    full frontEnd load = ofLayers frontEnd load (full frontEnd load) layers := by
  funext scope ⟨context, reference⟩
  have last : Resolver := fun _ => return none
  rw [full_eq_unrolled last scope context reference (Nat.lt_succ_self _), unrolled]
  refine (sameWithin_layers (fun below equal => ?_) scope context reference
    reference.isWithin_self).same
  intro scope context nested within
  rw [equal]
  exact .of_eq rfl
    (full_eq_unrolled last scope context nested (Nat.lt_succ_of_le within.nested))
    (sameWithin_unrolled last last (Nat.lt_succ_self _) (Nat.lt_succ_self _) scope context nested
      within)

end Resolver

end Adl
