import Adl.Proofs.Loading.Handles

namespace Adl

open Step Context

/-! Resolution with checks. Wherever it reads a definition through decorations, that these fit is
checked first; where loads keep compilations safe, no check fails. -/

variable {State α : Type}

/-- A step may be followed by one that does nothing. -/
theorem Step.Agree.before {discipline : Discipline State} {state : State}
    {left right : Step State α} {post : α → State → Prop} {look : Step State Unit}
    (agree : Agree discipline state left right post)
    (passes : ∀ value reached, discipline.Valid reached → discipline.Leads state reached →
      post value reached → look reached = (.ok (), reached)) :
    Agree discipline state left (do let value ← right; look; return value) post := by
  have ran : Agree discipline state (left >>= Pure.pure)
      (do let value ← right; look; return value) post :=
    agree.bind fun value reached valid leads holds =>
      .of_eq rfl (Step.bind_of_ok (passes value reached valid leads holds)) (.pure valid holds)
  rwa [bind_pure] at ran

namespace Loading

/-- Checks that a definition can be trusted, unless the compilation was stopped. -/
def check (violation : LoadError) (definition : Definition) : Loading Unit := do
  let context ← Loading.context
  if context.stopped || context.trusts definition then
    return
  else
    Step.fail violation

def checkSlot (violation : LoadError) (id : DefinitionId) : Loading Unit := do
  check violation (← Loading.definition id)

/-- A load after which the definition in a slot is checked. -/
def thenChecked (violation : LoadError) (id : DefinitionId) (load : String → Loading DefinitionId)
    (name : String) : Loading DefinitionId := do
  let found ← load name
  checkSlot violation id
  return found

end Loading

/-- Loads the instance; where it is to be made, what it is made of is checked first. -/
def InstanceRequest.loadChecked (request : InstanceRequest) (violation : LoadError)
    (registry : AnnotationRegistry) (load : String → Loading DefinitionId) :
    Loading DefinitionId := do
  let context ← Loading.context
  let name := request.instanceName context
  if !context.isKnown name then
    Loading.check violation (request.bare context name)
  request.load registry load

namespace Resolver

/-- A resolution after which the definition in a slot is checked. -/
def thenChecked (violation : LoadError) (id : DefinitionId) (resolver : Resolver) : Resolver :=
  fun scope => do
    let found ← resolver scope
    Loading.checkSlot violation id
    return found

/-- Puts an instance in the place of a generic definition. This is checked whenever something is
to be bound to one of its type parameters. -/
def withInstancesChecked (violation : LoadError) (frontEnd : FrontEnd)
    (load : String → Loading DefinitionId) (nested inner : Resolver) : Resolver := fun scope => do
  match ← inner scope with
  | none => return none
  | some generic =>
      let definition ← Loading.definition generic
      let reference ← Drafting.draft
      if !definition.isGeneric && reference.typeArguments.isEmpty then
        return some generic
      else
        let parameters := definition.typeParameters.map (·.name)
        match ← TypeArguments.positions reference definition.name parameters with
        | none => return none
        | some positions =>
            match ← bindAll (bind frontEnd (Loading.thenChecked violation generic load)
                (thenChecked violation generic nested) scope generic) positions .empty with
            | none => return none
            | some bindings =>
                let request : InstanceRequest := ⟨generic, bindings⟩
                match ← Loading.orRecorded (request.loadChecked violation frontEnd.registry load)
                    reference.span with
                | none => return none
                | some id =>
                    decorate (← Loading.definition id).name id
                    return some id

def layersChecked (violation : LoadError) (frontEnd : FrontEnd)
    (load : String → Loading DefinitionId) (nested : Resolver) : Resolver :=
  withCache (withImports frontEnd (withSubstitution load (withHoisting load
    (withInstancesChecked violation frontEnd load nested (withArguments (named load))))))

def nestedToChecked (violation : LoadError) (frontEnd : FrontEnd)
    (load : String → Loading DefinitionId) : Nat → Resolver
  | 0 => layersChecked violation frontEnd load fun _ => return none
  | depth + 1 =>
      layersChecked violation frontEnd load (nestedToChecked violation frontEnd load depth)

/-- Full resolution, with checks. -/
def fullChecked (violation : LoadError) (frontEnd : FrontEnd)
    (load : String → Loading DefinitionId) : Resolver := fun scope => do
  nestedToChecked violation frontEnd load (← Drafting.draft).nesting scope

end Resolver

/-! ## Loads -/

variable {context : Context} {load twin : String → Loading DefinitionId} {violation : LoadError}
  {frontEnd : FrontEnd} {id : DefinitionId}

/-- Loading keeps compilations safe, and what it gives is loaded under the name. -/
def LoadsTrusted (load twin : String → Loading DefinitionId) : Prop :=
  ∀ name context, trusting.Valid context →
    Agree trusting context (load name) (twin name) fun id reached =>
      reached.stopped = false → reached.cache.find? name = some id

/-- What is found is loaded. -/
def GivesLoaded (found : Option DefinitionId) (context : Context) : Prop :=
  context.stopped = false → ∀ id, found = some id → context.Loaded id

theorem GivesLoaded.none : GivesLoaded none context :=
  fun _ _ found => nomatch found

theorem GivesLoaded.lasts {before after : Context} {found : Option DefinitionId}
    (gives : GivesLoaded found before) (leads : trusting.Leads before after) : GivesLoaded found after :=
  fun runs id isFound => have ⟨running, respects⟩ := leads runs
    respects.loaded (gives running id isFound)

namespace Loading

theorem check_of_trusts {definition : Definition}
    (holds : context.stopped = false → context.trusts definition = true) :
    check violation definition context = (.ok (), context) := by
  have passes : (context.stopped || context.trusts definition) = true := by
    cases stops : context.stopped with
    | true => rfl
    | false => exact holds stops
  refine (Step.bind_of_ok rfl).trans ?_
  rw [if_pos passes]
  rfl

theorem checkSlot_of_loaded (valid : trusting.Valid context)
    (isLoaded : context.stopped = false → context.Loaded id) :
    checkSlot violation id context = (.ok (), context) :=
  (Step.bind_of_ok rfl).trans (check_of_trusts fun runs => (valid runs).trusts (isLoaded runs))

/-- What is loaded passes its check after any load. -/
theorem agree_thenChecked (loads : LoadsTrusted load twin) (valid : trusting.Valid context)
    (isLoaded : context.stopped = false → context.Loaded id) (name : String) :
    Agree trusting context (load name) (thenChecked violation id twin name) fun id reached =>
      reached.stopped = false → reached.cache.find? name = some id :=
  (loads name context valid).before fun _ _ validReached leads _ =>
    checkSlot_of_loaded validReached fun runs =>
      have ⟨runsBefore, respects⟩ := leads runs
      respects.loaded (isLoaded runsBefore)

end Loading

/-! ## Copies -/

/-- Decorations are those of the original, or taken away. -/
theorem Context.FitsLinks.of_resolved {before after : List Component}
    (kept : ∀ component ∈ after, ∀ resolved, component.resolved = some resolved →
      context.fits resolved = true ∨ ∃ original ∈ before, original.resolved = some resolved)
    (fits : context.FitsLinks (before.map Component.link)) :
    context.FitsLinks (after.map Component.link) := by
  simp only [FitsLinks, List.forall_mem_map, Component.link] at fits ⊢
  intro component member resolved found
  rcases kept component member resolved found with fitting | ⟨original, among, same⟩
  · exact fitting
  · exact fits original among resolved same

theorem Context.trusts_substitute {definition : Definition} (name : String)
    (bindings : ValueBindings) (trusts : context.trusts definition = true) :
    context.trusts (definition.substitute name bindings) = true := by
  obtain ⟨types, links⟩ := trusts_iff.mp trusts
  refine trusts_iff.mpr ⟨types, links.of_resolved fun changed member resolved found => .inr ?_⟩
  obtain ⟨component, original, rfl⟩ := List.mem_map.mp member
  exact ⟨component, original, component.resolved_substitute bindings found⟩

theorem agree_substituteValues_trusted (loads : LoadsTrusted load twin)
    (valid : trusting.Valid context) (reference : Reference) {target : DefinitionId}
    (isLoaded : context.stopped = false → context.Loaded target) (allowReferences : Bool) :
    Agree trusting context (substituteValues load reference target allowReferences)
      (substituteValues twin reference target allowReferences) fun substitution reached =>
        ∀ id, substitution = .substituted id → reached.stopped = false → reached.Loaded id := by
  refine .read rfl ?_
  split
  · exact .pure valid nofun
  · rename_i bindings _
    generalize Definition.substitutedName (context.definition target).name bindings = copy
    have loaded : ∀ {reached : Context}, trusting.Valid reached →
        Agree trusting reached
          (Loading.orRecorded (load copy) reference.span >>= Substitution.ofLoaded)
          (Loading.orRecorded (twin copy) reference.span >>= Substitution.ofLoaded)
          fun substitution last => ∀ id, substitution = .substituted id →
            last.stopped = false → last.Loaded id := by
      intro reached valid
      refine .bind (Loading.agree_orRecorded_trusted reference.span (loads copy reached valid)) ?_
      intro found later valid _ answer
      cases found with
      | none => exact .pure valid nofun
      | some id =>
          refine .pure valid fun other same runs => ?_
          cases same
          exact ⟨copy, answer id rfl runs⟩
    refine .read rfl ?_
    dsimp only
    split
    · exact .bind (Loading.agree_register_trusted valid rfl fun runs => isSane_of_trusts
        (trusts_substitute copy bindings ((valid runs).trusts (isLoaded runs))))
        fun _ _ valid _ _ => loaded valid
    · exact loaded valid

/-! ## Instances -/

/-- What is bound is loaded, if it is a definition. -/
def TypeBinding.IsLoaded (context : Context) : TypeBinding → Prop
  | .definition id => context.Loaded id
  | .parameter _ => True

theorem TypeBinding.IsLoaded.lasts {before after : Context} (respects : Respects before after)
    {binding : TypeBinding} (isLoaded : binding.IsLoaded before) : binding.IsLoaded after := by
  cases binding with
  | definition id => exact respects.loaded isLoaded
  | parameter name => trivial

namespace InstanceRequest

/-- The request is for a loaded definition, with loaded definitions bound to its type
parameters. -/
structure IsReady (request : InstanceRequest) (context : Context) : Prop where
  generic : context.Loaded request.generic
  bindings : ∀ binding ∈ request.bindings.values, binding.IsLoaded context

variable {request : InstanceRequest}

/-- The bare instance of what is loaded can be trusted. -/
theorem trusts_bare (safe : context.Safe) (ready : request.IsReady context) (name : String) :
    context.trusts (request.bare context name) = true := by
  obtain ⟨types, links⟩ := trusts_iff.mp (safe.trusts ready.generic)
  refine trusts_iff.mpr ⟨fun resolved member => ?_,
    links.of_resolved fun changed member resolved found => ?_⟩
  · obtain ⟨renamed, among, decorated⟩ := List.mem_filterMap.mp member
    obtain ⟨parameter, declared, kept⟩ := List.mem_filterMap.mp among
    refine types resolved (List.mem_filterMap.mpr ⟨parameter, declared, ?_⟩)
    split at kept
    · cases kept
      exact decorated
    · cases kept
  · obtain ⟨component, original, rfl⟩ := List.mem_map.mp member
    unfold Component.instantiate at found
    split at found
    · split at found
      · rename_i bound
        cases found
        exact .inl (safe.fits (ready.bindings _ (Table.mem_values_of_find? bound)))
      · exact .inr ⟨component, original, found⟩
      · exact .inr ⟨component, original, found⟩
    · split at found
      · split at found
        · cases found
        · exact .inr ⟨component, original, found⟩
      · exact .inr ⟨component, original, found⟩

theorem agree_loadChecked (harmless : frontEnd.registry.IsHarmless)
    (loads : LoadsTrusted load twin) (valid : trusting.Valid context)
    (ready : context.stopped = false → request.IsReady context) :
    Agree trusting context (request.load frontEnd.registry load)
      (request.loadChecked violation frontEnd.registry twin) fun id reached =>
        reached.stopped = false → reached.Loaded id := by
  have found : ∀ {reached : Context} (name : String), trusting.Valid reached →
      Agree trusting reached (load name) (twin name) fun id last =>
        last.stopped = false → last.Loaded id :=
    fun name valid => (loads name _ valid).mono fun _ _ _ _ isLoaded runs => ⟨name, isLoaded runs⟩
  have makes : Agree trusting context (request.load frontEnd.registry load)
      (request.load frontEnd.registry twin) fun id reached =>
        reached.stopped = false → reached.Loaded id := by
    refine .read rfl ?_
    dsimp only
    split
    · refine .bind ((agree_build harmless layers).trusted valid) ?_
      rintro made reached validReached leads ⟨edits, reports⟩
      have sane (runs : reached.stopped = false) : reached.IsSane made := by
        have ⟨running, respects⟩ := leads runs
        exact (respects.isSane (isSane_of_trusts
          (trusts_bare (valid running) (ready running) _))).edits edits
      exact .bind (Loading.agree_register_trusted validReached edits.keeps.name sane)
        fun _ _ valid _ _ => found _ valid
    · exact found _ valid
  refine .of_eq rfl ((Step.bind_of_ok rfl).trans ?_) makes
  dsimp only
  split
  · exact Step.bind_of_ok (Loading.check_of_trusts fun runs =>
      trusts_bare (valid runs) (ready runs) _)
  · exact Step.bind_of_ok rfl

end InstanceRequest

namespace Resolver

open Drafting

variable {original : Option Resolved} {reference : Reference} {scope : Option DefinitionId}
  {inner innerTwin nested nestedTwin : Resolver}

/-- The decoration of a reference fits, or it is the one that it came with. -/
def Decorated (original : Option Resolved) (context : Context) (reference : Reference) : Prop :=
  context.stopped = false → ∀ resolved, reference.resolved = some resolved →
    original = some resolved ∨ context.fits resolved = true

/-- Steps on a reference that came with a decoration. -/
abbrev decorating (original : Option Resolved) : Discipline (Context × Reference) :=
  trusting.drafting (Decorated original)

/-- Resolution keeps compilations safe and gives what is loaded. -/
def ResolvesTrusted (left right : Resolver) : Prop :=
  ∀ original scope context reference, trusting.Valid context →
    Decorated original context reference →
    Agree (decorating original) (context, reference) (left scope) (right scope) fun found pair =>
      GivesLoaded found pair.1

theorem decorated_self : Decorated reference.resolved context reference :=
  fun _ _ found => .inl found

theorem Decorated.lasting : trusting.Lasting (Decorated original) :=
  lasting_trusting fun respects decorated resolved found =>
    (decorated resolved found).imp_right respects.fits

theorem agree_decorated_trusted (valid : trusting.Valid context) {name : String}
    (isLoaded : context.stopped = false → context.Loaded id ∧
      context.fits ⟨name, some id⟩ = true) :
    Agree (decorating original) (context, reference)
      (do decorate name id; return some id) (do decorate name id; return some id)
      fun found pair => GivesLoaded found pair.1 := by
  refine .through (fun _ pair => pair.1 = context) (agree_modifyDraft valid ?_ rfl) ?_
  · intro runs resolved found
    cases found
    exact .inr (isLoaded runs).2
  · rintro _ ⟨reached, draft⟩ validAfter _ rfl
    refine .pure validAfter fun runs other found => ?_
    cases found
    exact (isLoaded runs).1

theorem agree_named (valid : trusting.Valid context)
    (decorated : Decorated original context reference)
    (loads : Agree trusting context (load reference.name) (twin reference.name) fun id reached =>
      reached.stopped = false → reached.cache.find? reference.name = some id) :
    Agree (decorating original) (context, reference) (named load scope) (named twin scope)
      fun found pair => GivesLoaded found pair.1 := by
  refine .read rfl ?_
  refine agree_lift_bind Decorated.lasting valid decorated
    (Loading.agree_orRecorded_trusted reference.span loads) ?_
  intro found reached valid _ decorated answer
  cases found with
  | none => exact .pure ⟨valid, decorated⟩ .none
  | some id =>
      refine agree_decorated_trusted valid fun runs => ?_
      have found := answer id rfl runs
      obtain ⟨within, bears, -⟩ := (valid runs).loaded _ id found
      refine ⟨⟨_, found⟩, fits_iff.mpr fun other isHandle => ?_⟩
      cases isHandle
      exact ⟨within, bears⟩

theorem trusted_named (loads : LoadsTrusted load twin) :
    ResolvesTrusted (named load) (named twin) :=
  fun _ _ context _ valid decorated => agree_named valid decorated (loads _ context valid)

theorem trusted_withArguments (resolves : ResolvesTrusted inner innerTwin) :
    ResolvesTrusted (withArguments inner) (withArguments innerTwin) := by
  intro original scope context reference valid decorated
  refine .bind (resolves original scope context reference valid decorated) ?_
  rintro found ⟨reached, draft⟩ valid _ gives
  cases found with
  | none => exact .pure valid .none
  | some target =>
      refine .read rfl ?_
      have checked : Agree (reporting.drafting fun _ (form : Reference) =>
          form.resolved = draft.resolved) (reached, draft)
          (Arguments.check (reached.definition target) (scopeDefinition? scope reached))
          (Arguments.check (reached.definition target) (scopeDefinition? scope reached)) _ :=
        Arguments.agree_check _ _ rfl fun _ _ => rfl
      refine .bind (agree_under (Drafting.agree_trusted valid.1 checked) (fun _ valid _ => valid)
        (fun _ _ leads => leads) (fun _ _ => trivial) fun later form validLater leads same => ?_) ?_
      · have lasts := Decorated.lasting valid.1 validLater leads valid.2
        exact fun runs resolved found => lasts runs resolved (same ▸ found)
      · rintro accepted ⟨later, form⟩ validLater leads -
        cases accepted with
        | false => exact .pure validLater .none
        | true =>
            exact .pure validLater (gives.lasts leads)

/-! ## Instances -/

section Instances

variable {generic : DefinitionId}

/-- Steps on type arguments keep the compilation safe; nothing is read through these. -/
abbrev binding : Discipline (Context × TypeArgument) :=
  trusting.drafting fun _ _ => True

/-- What a parameter was bound to is loaded. -/
def BindsLoaded (found : Option TypeBinding) (context : Context) : Prop :=
  context.stopped = false → ∀ binding, found = some binding → binding.IsLoaded context

theorem agree_bindReference_trusted (loads : LoadsTrusted load twin)
    (resolves : ResolvesTrusted nested nestedTwin) (valid : trusting.Valid context)
    (isLoaded : context.stopped = false → context.Loaded generic) :
    Agree (decorating reference.resolved) (context, reference) (bindReference load nested scope)
      (bindReference (Loading.thenChecked violation generic twin)
        (thenChecked violation generic nestedTwin) scope) fun found pair => GivesLoaded found pair.1 := by
  refine .read rfl ?_
  split
  · exact agree_named valid decorated_self (Loading.agree_thenChecked loads valid isLoaded _)
  · refine (resolves _ scope context reference valid decorated_self).before ?_
    rintro found ⟨reached, draft⟩ validReached leads _
    have checks : Loading.checkSlot violation generic reached = (.ok (), reached) :=
      Loading.checkSlot_of_loaded validReached.1 fun runs =>
        have ⟨running, respects⟩ := leads runs
        respects.loaded (isLoaded running)
    rw [lift_apply, checks]

theorem agree_bind_trusted (loads : LoadsTrusted load twin)
    (resolves : ResolvesTrusted nested nestedTwin) (valid : trusting.Valid context)
    (isLoaded : context.stopped = false → context.Loaded generic) (parameter : String)
    (argument : TypeArgument) :
    Agree binding (context, argument) (bind frontEnd load nested scope generic parameter)
      (bind frontEnd (Loading.thenChecked violation generic twin)
        (thenChecked violation generic nestedTwin) scope generic parameter)
      fun found pair => BindsLoaded found pair.1 := by
  have lasting := Discipline.lasting_const trusting fun (_ : TypeArgument) => True
  refine .read rfl ?_
  split
  · refine .read rfl ?_
    split
    · refine .pure ⟨valid, trivial⟩ fun _ binding found => ?_
      cases found
      trivial
    · exact agree_lift_bind lasting valid trivial ((Loading.agree_recordError _ _ _).trusted valid)
        fun _ _ valid _ _ _ => .pure ⟨valid, trivial⟩ nofun
  · rename_i reference _
    refine .bind (agree_onPart (agree_bindReference_trusted loads resolves valid isLoaded)
      fun _ _ _ _ _ => trivial) ?_
    rintro found ⟨reached, draft⟩ valid _ ⟨_, -, -, gives⟩
    cases found with
    | none => exact .pure valid nofun
    | some id =>
        refine agree_lift_bind lasting valid.1 trivial
          ((agree_admits frontEnd generic parameter scope _ id).trusted valid.1) ?_
        intro admitted later validLater leads _ _
        cases admitted with
        | false => exact .pure ⟨validLater, trivial⟩ nofun
        | true =>
            refine .pure ⟨validLater, trivial⟩ fun runs binding found => ?_
            cases found
            exact gives.lasts leads runs id rfl

theorem agree_atTypeArgument_trusted {position : Nat}
    {step stepTwin : Revising TypeArgument (Option TypeBinding)} (valid : trusting.Valid context)
    (decorated : Decorated original context reference)
    (agree : ∀ argument, Agree binding (context, argument) step stepTwin
      fun found pair => BindsLoaded found pair.1) :
    Agree (decorating original) (context, reference) (atTypeArgument position step)
      (atTypeArgument position stepTwin) fun found pair => BindsLoaded found pair.1 := by
  refine .read rfl ?_
  split
  · exact .pure ⟨valid, decorated⟩ nofun
  · refine (agree_onPart (agree _) fun reached changed validReached leads _ => ?_).mono ?_
    · exact Decorated.lasting valid validReached leads decorated
    · rintro found ⟨reached, _⟩ _ _ ⟨_, rfl, -, binds⟩
      exact binds

/-- All that was bound is loaded. -/
def BindsAll (found : Option TypeBindings) (context : Context) : Prop :=
  context.stopped = false → ∀ bindings, found = some bindings →
    ∀ binding ∈ bindings.values, binding.IsLoaded context

theorem agree_bindAll_trusted {step stepTwin : String → Revising TypeArgument (Option TypeBinding)}
    {positions : List (String × Nat)} (valid : trusting.Valid context)
    (decorated : Decorated original context reference)
    (agree : ∀ parameter reached argument, trusting.Valid reached →
      trusting.Leads context reached → Agree binding (reached, argument) (step parameter)
        (stepTwin parameter) fun found pair => BindsLoaded found pair.1)
    {bindings : TypeBindings} (bound : BindsAll (some bindings) context) :
    Agree (decorating original) (context, reference) (bindAll step positions bindings)
      (bindAll stepTwin positions bindings) fun found pair => BindsAll found pair.1 := by
  induction positions generalizing context reference bindings with
  | nil => exact .pure ⟨valid, decorated⟩ bound
  | cons entry rest induction =>
      obtain ⟨parameter, position⟩ := entry
      refine .bind (agree_atTypeArgument_trusted valid decorated fun argument =>
        agree parameter context argument valid (trusting.refl context)) ?_
      rintro found ⟨reached, draft⟩ validReached leads binds
      have others : ∀ parameter later argument, trusting.Valid later →
          trusting.Leads reached later → Agree binding (later, argument) (step parameter)
            (stepTwin parameter) fun found pair => BindsLoaded found pair.1 :=
        fun parameter later argument valid leadsLater =>
          agree parameter later argument valid (trusting.trans leads leadsLater)
      have kept : BindsAll (some bindings) reached := by
        intro runs same isSame binding member
        cases isSame
        have ⟨running, respects⟩ := leads runs
        exact (bound running bindings rfl binding member).lasts respects
      cases found with
      | none =>
          exact .bind (induction validReached.1 validReached.2 others kept)
            fun _ _ valid _ _ => .pure valid nofun
      | some binding =>
          refine induction validReached.1 validReached.2 others fun runs same isSame other member => ?_
          cases isSame
          rcases Table.mem_values_insert member with rfl | old
          · exact binds runs other rfl
          · exact kept runs bindings rfl other old

theorem trusted_withInstances (harmless : frontEnd.registry.IsHarmless)
    (loads : LoadsTrusted load twin) (nestedResolves : ResolvesTrusted nested nestedTwin)
    (resolves : ResolvesTrusted inner innerTwin) :
    ResolvesTrusted (withInstances frontEnd load nested inner)
      (withInstancesChecked violation frontEnd twin nestedTwin innerTwin) := by
  intro original scope context reference valid decorated
  refine .bind (resolves original scope context reference valid decorated) ?_
  rintro found ⟨reached, draft⟩ ⟨valid, decorated⟩ - gives
  cases found with
  | none => exact .pure ⟨valid, decorated⟩ .none
  | some generic =>
      refine .read rfl (.read rfl ?_)
      split
      · exact .pure ⟨valid, decorated⟩ gives
      · refine agree_lift_bind Decorated.lasting valid decorated
          ((TypeArguments.agree_positions draft _ _ False).trusted valid) ?_
        intro positions later valid leads decorated _
        cases positions with
        | none => exact .pure ⟨valid, decorated⟩ .none
        | some positions =>
            have isLoaded : ∀ {last : Context}, trusting.Leads later last →
                last.stopped = false → last.Loaded generic :=
              fun leadsLast runs => gives.lasts (trusting.trans leads leadsLast) runs generic rfl
            refine .bind (agree_bindAll_trusted valid decorated
              (fun parameter reached argument valid leads =>
                agree_bind_trusted loads nestedResolves valid (isLoaded leads) parameter argument)
              fun _ _ isEmpty _ member => ?_) ?_
            · cases isEmpty
              exact nomatch member
            · rintro bindings ⟨bound, form⟩ ⟨valid, decorated⟩ leadsBound binds
              cases bindings with
              | none => exact .pure ⟨valid, decorated⟩ .none
              | some bindings =>
                  refine agree_lift_bind Decorated.lasting valid decorated
                    (Loading.agree_orRecorded_trusted _ (InstanceRequest.agree_loadChecked harmless
                      loads valid fun runs =>
                        ⟨isLoaded leadsBound runs, binds runs bindings rfl⟩)) ?_
                  intro found last valid _ decorated answer
                  cases found with
                  | none => exact .pure ⟨valid, decorated⟩ .none
                  | some id =>
                      exact .read rfl (agree_decorated_trusted valid fun runs =>
                        ⟨answer id rfl runs, (valid runs).fits (answer id rfl runs)⟩)

end Instances

/-! ## The other layers -/

theorem agree_hoist_trusted (loads : LoadsTrusted load twin) (valid : trusting.Valid context)
    (decorated : Decorated original context reference) :
    Agree (decorating original) (context, reference) (hoist load) (hoist twin) fun _ _ => True := by
  have keeps : ∀ name context, trusting.Valid context →
      Agree trusting context (load name) (twin name) fun _ _ => True :=
    fun name context valid => (loads name context valid).forget
  have takes : ∀ parameters index (reached : Context) (argument : TypeArgument),
      trusting.Valid reached → Agree binding (reached, argument)
        (takeArguments load parameters index) (takeArguments twin parameters index)
        fun _ _ => True :=
    fun parameters index reached argument valid =>
      (agree_under (agree_takeArguments keeps parameters index
        ⟨valid, (⟨Nat.le_refl _, fun _ _ => trivial⟩ :
          argument.IsWithin argument.nesting fun _ => True)⟩) (fun _ valid _ => valid)
        (fun _ _ leads => leads) (fun _ _ => trivial) fun _ _ _ _ _ => trivial).forget
  refine .read rfl ?_
  refine agree_lift_bind Decorated.lasting valid decorated (agree_peek keeps valid _) ?_
  intro found reached valid _ decorated _
  cases found with
  | none => exact .pure ⟨valid, decorated⟩ trivial
  | some generic =>
      have each := agree_each (fun _ => Discipline.lasting_const trusting fun _ => True)
        (fun _ _ => Discipline.lasting_const trusting fun _ => True) valid
        (fun (_ : TypeArgument) (_ : _ ∈ reference.typeArguments) => trivial)
        fun index later argument valid _ _ =>
          takes (generic.typeParameters.map (·.name)) index later argument valid
      refine .bind (agree_onPart each fun later _ validLater leads _ =>
        Decorated.lasting valid validLater leads decorated) ?_
      rintro hoisted ⟨later, draft⟩ ⟨valid, decorated⟩ _ -
      exact agree_modifyDraft valid decorated trivial

theorem trusted_withHoisting (loads : LoadsTrusted load twin)
    (resolves : ResolvesTrusted inner innerTwin) :
    ResolvesTrusted (withHoisting load inner) (withHoisting twin innerTwin) := by
  intro original scope context reference valid decorated
  refine .read rfl ?_
  split
  · refine .bind (agree_hoist_trusted loads valid decorated) ?_
    rintro _ ⟨reached, draft⟩ ⟨valid, decorated⟩ _ _
    exact resolves original scope reached draft valid decorated
  · exact resolves original scope context reference valid decorated

theorem trusted_withSubstitution (loads : LoadsTrusted load twin)
    (resolves : ResolvesTrusted inner innerTwin) :
    ResolvesTrusted (withSubstitution load inner) (withSubstitution twin innerTwin) := by
  intro original scope context reference valid decorated
  refine .bind (resolves original scope context reference valid decorated) ?_
  rintro found ⟨reached, draft⟩ ⟨valid, decorated⟩ _ gives
  cases found with
  | none => exact .pure ⟨valid, decorated⟩ .none
  | some target =>
      refine .read rfl ?_
      refine agree_lift_bind Decorated.lasting valid decorated
        (agree_substituteValues_trusted loads valid draft (fun runs => gives runs target rfl)
          false) ?_
      intro substitution later valid leads decorated holds
      cases substitution with
      | notApplicable => exact .pure ⟨valid, decorated⟩ (gives.lasts leads)
      | failed => exact .pure ⟨valid, decorated⟩ .none
      | substituted id =>
          exact .read rfl (agree_decorated_trusted valid fun runs =>
            ⟨holds id rfl runs, (valid runs).fits (holds id rfl runs)⟩)

theorem resolved_qualify (isKnown : String → Bool) (holder : Definition) (reference : Reference) :
    (Qualification.qualify isKnown holder reference).resolved = reference.resolved := by
  cases reference
  rw [Qualification.qualify]

theorem trusted_withImports (resolves : ResolvesTrusted inner innerTwin) :
    ResolvesTrusted (withImports frontEnd inner) (withImports frontEnd innerTwin) := by
  intro original scope context reference valid decorated
  cases scope with
  | none => exact resolves original none context reference valid decorated
  | some id =>
      refine .read rfl ?_
      refine .through (fun _ _ => True) (agree_modifyDraft valid ?_ trivial) ?_
      · intro runs resolved found
        exact decorated runs resolved ((resolved_qualify _ _ _).symm.trans found)
      · rintro _ ⟨reached, draft⟩ ⟨valid, decorated⟩ _ _
        exact resolves original (some id) reached draft valid decorated

theorem agree_remember_trusted (valid : trusting.Valid context) (key : String)
    (isLoaded : context.stopped = false → context.Loaded id) :
    Agree trusting context
      (Loading.update fun context =>
        { context with references := context.references.insert key id })
      (Loading.update fun context =>
        { context with references := context.references.insert key id }) fun _ _ => True :=
  .run rfl (fun runs => (valid runs).remember key (isLoaded runs))
    (fun runs => ⟨runs, .of_same rfl rfl rfl⟩) trivial

theorem trusted_withCache (resolves : ResolvesTrusted inner innerTwin) :
    ResolvesTrusted (withCache inner) (withCache innerTwin) := by
  intro original scope context reference valid decorated
  refine .read rfl (.read rfl ?_)
  dsimp only
  split
  · rename_i id found
    exact agree_decorated_trusted valid fun runs =>
      have isLoaded := (valid runs).remembered _ id found
      ⟨isLoaded, (valid runs).fits isLoaded⟩
  · refine .bind (resolves original scope context reference valid decorated) ?_
    rintro found ⟨reached, draft⟩ ⟨valid, decorated⟩ _ gives
    cases found with
    | none => exact .pure ⟨valid, decorated⟩ .none
    | some id =>
        refine agree_lift_bind Decorated.lasting valid decorated
          (agree_remember_trusted valid _ fun runs => gives runs id rfl) ?_
        exact fun _ later valid leads decorated _ => .pure ⟨valid, decorated⟩ (gives.lasts leads)

/-! ## The layers together -/

theorem trusted_layers (harmless : frontEnd.registry.IsHarmless)
    (loads : LoadsTrusted load twin) (nestedResolves : ResolvesTrusted nested nestedTwin) :
    ResolvesTrusted (ofLayers frontEnd load nested layers)
      (layersChecked violation frontEnd twin nestedTwin) :=
  trusted_withCache (trusted_withImports (trusted_withSubstitution loads
    (trusted_withHoisting loads (trusted_withInstances harmless loads nestedResolves
      (trusted_withArguments (trusted_named loads))))))

theorem trusted_nestedTo (harmless : frontEnd.registry.IsHarmless)
    (loads : LoadsTrusted load twin) (depth : Nat) :
    ResolvesTrusted (nestedTo frontEnd load depth)
      (nestedToChecked violation frontEnd twin depth) := by
  induction depth with
  | zero =>
      refine trusted_layers harmless loads fun _ _ _ _ valid decorated => ?_
      exact .pure ⟨valid, decorated⟩ .none
  | succ depth induction => exact trusted_layers harmless loads induction

/-- No check of what resolution reads fails. -/
theorem trusted_full (harmless : frontEnd.registry.IsHarmless) (loads : LoadsTrusted load twin) :
    ResolvesTrusted (full frontEnd load) (fullChecked violation frontEnd twin) :=
  fun original scope context reference valid decorated =>
    .read rfl (trusted_nestedTo harmless loads reference.nesting original scope context reference
      valid decorated)

end Resolver

end Adl
