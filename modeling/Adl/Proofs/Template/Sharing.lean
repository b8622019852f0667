import Adl.Proofs.Loading.CacheCoherence
import Adl.Proofs.Template.Closure
import Adl.Proofs.Text.Brackets

namespace Adl

open Step Context Text

/-! Instances are shared by name. The name of an instance tells of each type parameter what the
thing is called that it is bound to, but not whether this is a definition or a type parameter. -/

variable {frontEnd : FrontEnd} {context before after : Context} {id other : DefinitionId}

/-! ## Names -/

namespace Context

/-- Something is called by the name: what is loaded under it, or else what is registered. -/
def named? (context : Context) (name : String) : Option DefinitionId :=
  (context.cache.find? name).or (context.registered.find? name)

/-- The definition is what some name stands for. -/
def Knows (context : Context) (id : DefinitionId) : Prop :=
  ∃ name, context.named? name = some id

variable {strict : Prop} {name : String}

theorem Sound.name_of_named (sound : context.Sound strict)
    (collects : context.log.policy = .collect) (found : context.named? name = some id) :
    (context.definition id).name = name := by
  have names : context.Names name (context.definition id) := by
    rcases Option.or_eq_some_iff.mp found with loaded | ⟨-, registered⟩
    · exact sound.loaded_names name id loaded
    · exact sound.registered_names name id registered
  refine names.resolve_right fun stopped => ?_
  cases collects.symm.trans stopped.1.1

/-- Known definitions are told apart by their names. -/
theorem Sound.eq_of_name_eq (sound : context.Sound strict)
    (collects : context.log.policy = .collect) (known : context.Knows id)
    (otherKnown : context.Knows other)
    (same : (context.definition id).name = (context.definition other).name) : id = other := by
  obtain ⟨name, found⟩ := known
  obtain ⟨otherName, otherFound⟩ := otherKnown
  rw [sound.name_of_named collects found, sound.name_of_named collects otherFound] at same
  cases same
  exact Option.some.inj (found.symm.trans otherFound)

/-- A definition that is known later as well has kept its name. -/
theorem Sound.name_lasts (sound : before.Sound strict) (soundAfter : after.Sound strict)
    (collects : before.log.policy = .collect) (evolves : Evolves none before after)
    (known : before.Knows id) (knownAfter : after.Knows id) :
    (after.definition id).name = (before.definition id).name := by
  obtain ⟨name, found⟩ := known
  obtain ⟨later, foundLater⟩ := knownAfter
  rw [sound.name_of_named collects found,
    soundAfter.name_of_named (evolves.policy.trans collects) foundLater]
  rcases Option.or_eq_some_iff.mp found with loaded | ⟨-, registered⟩
  · have kept := evolves.find?_cache loaded
    rcases Option.or_eq_some_iff.mp foundLater with loadedLater | ⟨-, registeredLater⟩
    · exact soundAfter.loaded_unique later name id loadedLater kept
    · exact soundAfter.loaded_registered name later id kept registeredLater
  · have kept := evolves.registered name id registered
    rcases Option.or_eq_some_iff.mp foundLater with loadedLater | ⟨-, registeredLater⟩
    · exact (soundAfter.loaded_registered later name id loadedLater kept).symm
    · exact soundAfter.registered_unique later name id registeredLater kept

end Context

namespace TypeBinding

def IsKnown (context : Context) : TypeBinding → Prop
  | .definition id => context.Knows id
  | .parameter _ => True

/-- One is a definition, and the other a type parameter that is called like it. -/
def IsConfusedWith (context : Context) : TypeBinding → TypeBinding → Prop
  | .definition id, .parameter name | .parameter name, .definition id =>
      (context.definition id).name = name
  | _, _ => False

instance (context : Context) : (one other : TypeBinding) →
    Decidable (one.IsConfusedWith context other)
  | .definition _, .parameter _ | .parameter _, .definition _ =>
      inferInstanceAs (Decidable (_ = _))
  | .definition _, .definition _ | .parameter _, .parameter _ =>
      inferInstanceAs (Decidable False)

theorem name_eq_iff {strict : Prop} {one another : TypeBinding} (sound : context.Sound strict)
    (collects : context.log.policy = .collect) (known : one.IsKnown context)
    (anotherKnown : another.IsKnown context) :
    one.name context = another.name context ↔ one = another ∨ one.IsConfusedWith context another := by
  cases one with
  | definition id =>
      cases another with
      | definition other =>
          have same : (context.definition id).name = (context.definition other).name ↔
              id = other :=
            ⟨sound.eq_of_name_eq collects known anotherKnown, fun equal => equal ▸ rfl⟩
          simpa [name, IsConfusedWith] using same
      | parameter name => simp [TypeBinding.name, IsConfusedWith]
  | parameter name =>
      cases another with
      | definition other => simp [TypeBinding.name, IsConfusedWith, eq_comm]
      | parameter other => simp [TypeBinding.name, IsConfusedWith]

/-- Two lists of known things call them the same, if each is the same or confused with the other. -/
theorem names_eq_iff {strict : Prop} {left right : List TypeBinding} (sound : context.Sound strict)
    (collects : context.log.policy = .collect) (known : ∀ one ∈ left, one.IsKnown context)
    (anotherKnown : ∀ another ∈ right, another.IsKnown context) :
    left.map (·.name context) = right.map (·.name context) ↔
      List.Forall₂ (fun one another => one = another ∨ one.IsConfusedWith context another)
        left right := by
  induction left generalizing right with
  | nil =>
      cases right with
      | nil => simp
      | cons another right => simp
  | cons one left induction =>
      cases right with
      | nil => simp
      | cons another right =>
          obtain ⟨first, others⟩ := List.forall_mem_cons.mp known
          obtain ⟨anotherFirst, anotherOthers⟩ := List.forall_mem_cons.mp anotherKnown
          rw [List.map_cons, List.map_cons, List.cons.injEq, List.forall₂_cons,
            name_eq_iff sound collects first anotherFirst, induction others anotherOthers]

theorem forall₂_eq_iff {left right : List TypeBinding}
    (apart : ∀ one ∈ left, ∀ another ∈ right, ¬one.IsConfusedWith context another) :
    List.Forall₂ (fun one another => one = another ∨ one.IsConfusedWith context another)
      left right ↔ left = right := by
  constructor
  · intro related
    refine List.forall₂_eq_eq_eq ▸ List.forall₂_iff_zip.mpr ⟨related.length_eq, ?_⟩
    intro one another paired
    obtain ⟨among, alsoAmong⟩ := List.of_mem_zip paired
    exact (List.forall₂_zip related paired).resolve_right (apart one among another alsoAmong)
  · rintro rfl
    exact List.forall₂_same.mpr fun _ _ => .inl rfl

end TypeBinding

namespace InstanceRequest

variable {request : InstanceRequest}

/-- What the request names is known, and the names can be told apart where they are listed. -/
structure Fits (request : InstanceRequest) (context : Context) : Prop where
  generic : context.Knows request.generic
  bound : ∀ binding ∈ request.bindings.values, binding.IsKnown context
  balanced : ∀ binding ∈ request.bindings.values, IsBalanced (binding.name context).toList

/-- Requests of the same generic definition that name equally many things ask for one name if they
call them the same. -/
theorem instanceName_eq_iff {one another : InstanceRequest}
    (generic : (before.definition one.generic).name = (after.definition another.generic).name)
    (keys : one.bindings.keys = another.bindings.keys)
    (balanced : ∀ binding ∈ one.bindings.values, IsBalanced (binding.name before).toList)
    (alsoBalanced : ∀ binding ∈ another.bindings.values,
      IsBalanced (binding.name after).toList) :
    one.instanceName before = another.instanceName after ↔
      one.bindings.values.map (·.name before) = another.bindings.values.map (·.name after) := by
  have length : one.bindings.values.length = another.bindings.values.length := by
    have same := congrArg List.length keys
    simpa [Table.keys, Table.values] using same
  constructor
  · intro equal
    rw [instanceName, instanceName, generic] at equal
    have listed := congrArg String.toList equal
    simp only [String.toList_append, String.toList_intercalate, List.append_assoc,
      List.append_cancel_left_eq, List.append_cancel_right_eq] at listed
    have texts := IsBalanced.intercalate_inj ?_ ?_ (by simp [length]) listed
    · exact List.map_injective_iff.mpr (fun _ _ => String.toList_inj.mp) texts
    · intro item member
      obtain ⟨_, among, rfl⟩ := List.mem_map.mp member
      obtain ⟨binding, isBound, rfl⟩ := List.mem_map.mp among
      exact balanced binding isBound
    · intro item member
      obtain ⟨_, among, rfl⟩ := List.mem_map.mp member
      obtain ⟨binding, isBound, rfl⟩ := List.mem_map.mp among
      exact alsoBalanced binding isBound
  · intro same
    rw [instanceName, instanceName, generic, same]

end InstanceRequest

namespace FrontEnd

/-- An instance that was asked for is loaded under its name. -/
theorem loaded_of_instantiate (harmless : frontEnd.registry.IsHarmless)
    (sound : context.Sound False) {request : InstanceRequest} {reached : Context}
    (made : frontEnd.instantiate request context = (.ok id, reached)) :
    reached.Sound False ∧ Evolves none context reached ∧
      reached.cache.find? (request.instanceName context) = some id := by
  have bindable : request.bindings.AreBindable False none context := by
    intro binding _
    cases binding with
    | definition id => exact False.elim
    | parameter name => exact False.elim
  have lasts : Lasts frontEnd False fun _ => True := fun _ _ _ _ => trivial
  have loads : Loads frontEnd False (fun _ => True) frontEnd.load (frontEnd.guardedLoad .aborted) :=
    FrontEnd.loads_load harmless False.elim .aborted lasts
  obtain ⟨⟨soundReached, -⟩, leads, loaded⟩ :=
    (InstanceRequest.agree_load harmless lasts loads sound trivial bindable).of_ok made
  exact ⟨soundReached, leads.toEvolves, loaded⟩

/-- Two requests that succeed, the second after any others, share their instance if and only if they
ask for the same name. For requests of one generic definition that bind the same type parameters,
where everything is known by its name and the names can be listed, this is so if and only if they
bind each type parameter to the same thing, or one of them to a definition and the other to a type
parameter that is called like it. Where nothing is confused like this, exactly equal requests
share. -/
theorem instances_shared_iff (frontEnd : FrontEnd) (options : Options)
    (definitions : List Definition) (before between : List Request)
    (first second : InstanceRequest) (firstId secondId : DefinitionId) (reached final : Context)
    (predefined : frontEnd.registry = .predefined)
    (firstMade : frontEnd.instantiate first
      (frontEnd.after before (.ofDefinitions options definitions)) = (.ok firstId, reached))
    (secondMade : frontEnd.instantiate second (frontEnd.after between reached) =
      (.ok secondId, final)) :
    let asked := frontEnd.after before (.ofDefinitions options definitions)
    let askedAgain := frontEnd.after between reached
    (firstId = secondId ↔ first.instanceName asked = second.instanceName askedAgain) ∧
      (options.errorPolicy = .collect → first.generic = second.generic →
        first.bindings.keys = second.bindings.keys →
        first.Fits asked → first.Fits askedAgain → second.Fits askedAgain →
        (firstId = secondId ↔ List.Forall₂
            (fun one another => one = another ∨ one.IsConfusedWith askedAgain another)
            first.bindings.values second.bindings.values) ∧
          ((∀ one ∈ first.bindings.values, ∀ another ∈ second.bindings.values,
              ¬one.IsConfusedWith askedAgain another) →
            (firstId = secondId ↔ first.bindings = second.bindings))) := by
  intro asked askedAgain
  have harmless : frontEnd.registry.IsHarmless :=
    predefined ▸ AnnotationRegistry.isHarmless_predefined
  obtain ⟨soundAsked, fromStart⟩ := frontEnd.advances_after harmless before
    (sound_ofDefinitions options definitions False.elim)
  obtain ⟨soundReached, toReached, firstLoaded⟩ :=
    loaded_of_instantiate harmless soundAsked firstMade
  obtain ⟨soundAgain, ⟨toAgain, -⟩⟩ := frontEnd.advances_after harmless between soundReached
  obtain ⟨soundFinal, toFinal, secondLoaded⟩ :=
    loaded_of_instantiate harmless soundAgain secondMade
  have stillLoaded := (toAgain.trans toFinal).find?_cache firstLoaded
  have shared : firstId = secondId ↔
      first.instanceName asked = second.instanceName askedAgain := by
    constructor
    · rintro rfl
      exact soundFinal.loaded_unique _ _ firstId stillLoaded secondLoaded
    · intro same
      rw [same] at stillLoaded
      exact Option.some.inj (stillLoaded.symm.trans secondLoaded)
  refine ⟨shared, fun collects generic keys fits fitsAgain secondFits => ?_⟩
  have policy : asked.log.policy = .collect :=
    fromStart.policy.trans ((policy_ofDefinitions options definitions).trans collects)
  have policyAgain : askedAgain.log.policy = .collect :=
    (toReached.trans toAgain).policy.trans policy
  have nameLasts {id : DefinitionId} (known : asked.Knows id) (knownAgain : askedAgain.Knows id) :
      (askedAgain.definition id).name = (asked.definition id).name :=
    soundAsked.name_lasts soundAgain policy (toReached.trans toAgain) known knownAgain
  have sameNames : first.bindings.values.map (·.name asked) =
      first.bindings.values.map (·.name askedAgain) := by
    refine List.map_congr_left fun binding member => ?_
    cases binding with
    | definition id => exact (nameLasts (fits.bound _ member) (fitsAgain.bound _ member)).symm
    | parameter name => rfl
  have sameGeneric : (asked.definition first.generic).name =
      (askedAgain.definition second.generic).name :=
    (nameLasts fits.generic fitsAgain.generic).symm.trans (by rw [generic])
  rw [shared, InstanceRequest.instanceName_eq_iff sameGeneric keys fits.balanced
    secondFits.balanced, sameNames,
    TypeBinding.names_eq_iff soundAgain policyAgain fitsAgain.bound secondFits.bound]
  refine ⟨Iff.rfl, fun apart => ?_⟩
  rw [TypeBinding.forall₂_eq_iff apart]
  exact ⟨Table.eq_of_keys_values keys, congrArg Table.values⟩

/-- A generic composite that holds what it is given, and two primitives, of which one has the name of
a type parameter. -/
def sharing : List Definition :=
  [ { Definition.ofKind "a.G" .composite with
      typeParameters := [⟨"P", none, .generated⟩]
      components := [⟨"p", none, some "P", .generated, .none, none, false⟩] },
    { Definition.ofKind "T" .primitive with sources := [.ofPath "t.c"] },
    { Definition.ofKind "a.Q" .primitive with sources := [.ofPath "q.c"] } ]

def sharingRequest (binding : TypeBinding) : InstanceRequest :=
  ⟨0, ⟨[("P", binding)]⟩⟩

theorem fits_sharingRequest {name : String} (generic : context.named? "a.G" = some 0)
    (bound : context.named? name = some id)
    (balanced : IsBalanced (context.definition id).name.toList) :
    (sharingRequest (.definition id)).Fits context where
  generic := ⟨"a.G", generic⟩
  bound binding member := by
    cases List.mem_singleton.mp member
    exact ⟨name, bound⟩
  balanced binding member := by
    cases List.mem_singleton.mp member
    exact balanced

/-- The instances with the two primitives are different ones. -/
theorem shared_apart :
    ∃ firstId reached secondId final,
      registeredOnly.instantiate (sharingRequest (.definition 1))
        (.ofDefinitions .default sharing) = (.ok firstId, reached) ∧
      registeredOnly.instantiate (sharingRequest (.definition 2)) reached = (.ok secondId, final) ∧
      firstId ≠ secondId := by
  have known : let start := Context.ofDefinitions .default sharing
      start.named? "a.G" = some 0 ∧ start.named? "T" = some 1 ∧
        IsBalanced (start.definition 1).name.toList := by
    decide +kernel
  have succeeds : (registeredOnly.instantiate (sharingRequest (.definition 1))
      (.ofDefinitions .default sharing)).1.toOption.any (fun _ =>
        let reached := (registeredOnly.instantiate (sharingRequest (.definition 1))
          (.ofDefinitions .default sharing)).2
        (registeredOnly.instantiate (sharingRequest (.definition 2))
            reached).1.toOption.any (fun _ => True) ∧
          reached.named? "a.G" = some 0 ∧ reached.named? "T" = some 1 ∧
          reached.named? "a.Q" = some 2 ∧ IsBalanced (reached.definition 1).name.toList ∧
          IsBalanced (reached.definition 2).name.toList) = true := by
    decide +kernel
  obtain ⟨startGeneric, startFirst, startBalanced⟩ := known
  rcases made : registeredOnly.instantiate (sharingRequest (.definition 1))
    (.ofDefinitions .default sharing) with ⟨result, reached⟩
  rw [made] at succeeds
  obtain ⟨firstId, outcome, again, generic, first, second, balanced, secondBalanced⟩ :=
    exists_ok_of_any succeeds
  cases outcome
  rcases madeAgain : registeredOnly.instantiate (sharingRequest (.definition 2)) reached with
    ⟨secondResult, final⟩
  rw [madeAgain] at again
  obtain ⟨secondId, secondOutcome, -⟩ := exists_ok_of_any again
  cases secondOutcome
  obtain ⟨-, exactly⟩ := instances_shared_iff registeredOnly .default sharing [] []
    (sharingRequest (.definition 1)) (sharingRequest (.definition 2)) firstId secondId reached final
    rfl made madeAgain
  obtain ⟨-, equal⟩ := exactly rfl rfl rfl (fits_sharingRequest startGeneric startFirst startBalanced)
    (fits_sharingRequest generic first balanced) (fits_sharingRequest generic second secondBalanced)
  have apart : ∀ one ∈ [TypeBinding.definition 1], ∀ another ∈ [TypeBinding.definition 2],
      ¬one.IsConfusedWith reached another := by
    simp [TypeBinding.IsConfusedWith]
  refine ⟨firstId, reached, secondId, final, rfl, madeAgain, fun same => ?_⟩
  have bindings := (equal apart).mp same
  simp [sharingRequest] at bindings

/-- What is bound to the primitive shares with what is bound to the type parameter, whichever comes
first. -/
theorem shares_confused :
    let byDefinition := sharingRequest (.definition 1)
    let byParameter := sharingRequest (.parameter "T")
    let context := Context.ofDefinitions .default sharing
    let afterDefinition := registeredOnly.instantiate byDefinition context
    let afterParameter := registeredOnly.instantiate byParameter context
    afterDefinition.1.toOption = some 3 ∧
      (registeredOnly.instantiate byParameter afterDefinition.2).1.toOption = some 3 ∧
      (afterDefinition.2.definition 3).isGeneric = false ∧
      afterParameter.1.toOption = some 3 ∧
      (registeredOnly.instantiate byDefinition afterParameter.2).1.toOption = some 3 ∧
      (afterParameter.2.definition 3).isGeneric = true := by
  decide +kernel

end FrontEnd

end Adl
