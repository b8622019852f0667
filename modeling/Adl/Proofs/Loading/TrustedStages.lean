import Adl.Proofs.Loading.ParallelStages
import Adl.Proofs.Reference.Trust

namespace Adl

open Step Context Resolver

/-! Stages with checks. The sub-components of a definition, and the types to which its type
parameters conform, are resolved before anything is read through their decorations. -/

/-- What a stage does where definitions are checked before they are read through decorations. -/
def Stage.runChecked (violation : LoadError) (frontEnd : FrontEnd)
    (load : String → Loading DefinitionId) (name : String) (id : DefinitionId) :
    Stage → Loading Unit
  | .typeParameters => TypeParameters.check (fullChecked violation frontEnd load) id
  | .subComponents => SubComponents.resolveAll (fullChecked violation frontEnd load) id
  | .parents => Parents.merge (fullChecked violation frontEnd load) load id
  | stage => do
      if Stage.afterParents.contains stage then
        Loading.checkSlot violation id
      stage.run frontEnd load name id

variable {context : Context} {load twin : String → Loading DefinitionId} {violation : LoadError}
  {frontEnd : FrontEnd} {name : String} {id : DefinitionId} {resolver other : Resolver}

/-! ## Stops -/

/-- One compilation beside another that does not go on. -/
def Pairing.stops : Pairing Context where
  Related _ _ := False
  Stopped left _ := left.stopped = true

theorem Pairing.keeps_stops {change : Context → Context} (isQuiet : IsQuiet change) :
    Pairing.stops.Keeps change where
  related _ _ related := related.elim
  stoppedLeft left _ stops := by
    change (change left).stopped = true
    rwa [Context.stopped, isQuiet.policy, isQuiet.errors]
  stoppedRight _ _ stops := stops

theorem Pairing.watches_stops : Pairing.stops.Watches where
  blind related := related.elim
  keeps _ isQuiet _ := keeps_stops isQuiet
  writes id definition := keeps_stops (isQuiet_replace id definition)
  records diagnostic :=
    { along := fun _ _ related => related.elim
      alone := fun _ _ stops => stopped_of_reports (Loading.agree_record diagnostic).leads stops }

theorem AnnotationRegistry.IsHarmless.runsParallel_stops {registry : AnnotationRegistry}
    (harmless : registry.IsHarmless) : registry.RunsParallel .stops :=
  fun kind processor found built node definition phase =>
    { along := fun _ _ related => related.elim
      alone := fun left _ stops => stopped_of_reports
        (harmless.processors kind processor found built node definition phase left).leads stops }

namespace Stage

/-- What loads nothing does not look at the loader. -/
theorem run_eq {stage : Stage} (others : stage ∉ loading) :
    stage.run frontEnd load name id = stage.run frontEnd twin name id := by
  cases stage with
  | typeParameters => exact absurd (by decide) others
  | subComponents => exact absurd (by decide) others
  | parents => exact absurd (by decide) others
  | _ => rfl

/-- A compilation that was stopped stays so. -/
theorem stopped_run (harmless : frontEnd.registry.IsHarmless) {stage : Stage}
    (others : stage ∉ loading) (stops : context.stopped = true) :
    ((stage.run frontEnd load name id) context).2.stopped = true := by
  have failing : ∀ name : String, Parallel Pairing.stops
      (Step.fail .aborted : Loading DefinitionId) (Step.fail .aborted) := fun _ => .fail _
  have same : stage.run frontEnd load name id =
      stage.run frontEnd (fun _ => Step.fail .aborted) name id := run_eq others
  rw [same]
  exact (parallel_run Pairing.watches_stops failing harmless.runsParallel_stops stage name
    id).alone context context stops

end Stage

/-! ## Drafts that may be stored -/

/-- A draft that may be stored for the name. -/
def Storable (name : String) (context : Context) (draft : Definition) : Prop :=
  context.stopped = false → draft.name = name ∧ context.IsSane draft

theorem Storable.lasting : trusting.Lasting (Storable name) :=
  lasting_trusting fun respects storable => storable.imp_right respects.isSane

theorem Storable.markMerged {draft : Definition} (storable : Storable name context draft) :
    Storable name context (Parents.markMerged draft) :=
  fun runs => ⟨(storable runs).1, (storable runs).2.types, (storable runs).2.links⟩

/-- The slot is filled for the name, as long as the compilation is not stopped. -/
def Fills (name : String) (id : DefinitionId) (context : Context) : Prop :=
  context.stopped = false → context.IsOpen name id

theorem Fills.lasts {before after : Context} (fills : Fills name id before)
    (leads : trusting.Leads before after) : Fills name id after :=
  fun runs => have ⟨running, respects⟩ := leads runs
    (fills running).lasts respects

theorem Fills.storable (fills : Fills name id context) (valid : trusting.Valid context) :
    Storable name context (context.definition id) :=
  fun runs => ⟨(fills runs).named, (valid runs).sane id⟩

theorem Fills.replace (fills : Fills name id context) (valid : trusting.Valid context)
    {changed : Definition} (storable : Storable name context changed) :
    trusting.Valid (context.replace id changed) ∧
      trusting.Leads context (context.replace id changed) :=
  ⟨fun runs => ((valid runs).replace (fills runs) (storable runs).1 (storable runs).2).1,
    fun runs => ⟨runs, ((valid runs).replace (fills runs) (storable runs).1
      (storable runs).2).2⟩⟩

namespace Loading

theorem agree_replace_trusted (valid : trusting.Valid context) (fills : Fills name id context)
    {changed : Definition} (storable : Storable name context changed) :
    Agree trusting context (Loading.replace id changed) (Loading.replace id changed)
      fun _ reached => reached = context.replace id changed :=
  .run rfl (fills.replace valid storable).1 (fills.replace valid storable).2 rfl

/-- A revision stores a draft, whatever its outcome. -/
theorem agree_revise_trusted {left right : Revising Definition Unit}
    {Good : Context → Definition → Prop} {post : Unit → Context × Definition → Prop}
    (fills : Fills name id context)
    (stores : ∀ reached draft, Good reached draft → Storable name reached draft)
    (agree : Agree (trusting.drafting Good) (context, context.definition id) left right post) :
    Agree trusting context (Loading.revise id left) (Loading.revise id right)
      fun value reached => ∃ before draft, reached = before.replace id draft ∧
        Fills name id before ∧ trusting.Leads before reached ∧ post value (before, draft) := by
  have same := agree.same
  have valid := agree.valid
  have leads := agree.leads
  have ended := agree.ended
  rcases outcome : left (context, context.definition id) with ⟨result, reached, draft⟩
  rw [outcome] at same valid leads ended
  have leftRun : Loading.revise id left context = (result, reached.replace id draft) := by
    simp only [Loading.revise, outcome]
  have rightRun : Loading.revise id right context = (result, reached.replace id draft) := by
    simp only [Loading.revise, ← same]
  have fillsReached : Fills name id reached := fills.lasts leads
  have replaced := fillsReached.replace valid.1 (stores reached draft valid.2)
  refine .ends leftRun rightRun replaced.1 (trusting.trans leads replaced.2) ?_
  cases result with
  | ok value => exact ⟨reached, draft, rfl, fillsReached, replaced.2, ended⟩
  | error error => trivial

end Loading

/-! ## Type parameters -/

namespace TypeParameters

/-- The decoration of the type to which the type parameter conforms fits. -/
def FitsType (context : Context) (parameter : FormalTypeParameter) : Prop :=
  context.stopped = false → ∀ resolved, parameter.conformsTo.bind (·.resolved) = some resolved →
    context.fits resolved = true

theorem FitsType.lasting : trusting.Lasting FitsType :=
  lasting_trusting fun respects fits resolved found => respects.fits (fits resolved found)

theorem agree_checkConformance_trusted (resolves : ResolvesTrusted resolver other)
    (valid : trusting.Valid context) {parameter : FormalTypeParameter}
    (fits : FitsType context parameter) :
    Agree (trusting.drafting FitsType) (context, parameter) (checkConformance resolver id)
      (checkConformance other id) fun _ _ => True := by
  refine .read rfl ?_
  split
  · exact .pure ⟨valid, fits⟩ trivial
  · rename_i reference isType
    split
    · exact .pure ⟨valid, fits⟩ trivial
    · refine .bind (Drafting.agree_onPart
        (resolves reference.resolved (some id) context reference valid decorated_self)
        fun reached form validReached leads decorated => ?_) ?_
      · have kept := FitsType.lasting valid validReached leads fits
        intro runs resolved found
        rcases decorated runs resolved found with came | fitting
        · exact kept runs resolved (isType ▸ came)
        · exact fitting
      · rintro found ⟨reached, draft⟩ ⟨valid, fits⟩ _ _
        cases found with
        | none => exact .pure ⟨valid, fits⟩ trivial
        | some type =>
            refine .read rfl ?_
            split
            · exact .read rfl (Drafting.agree_lift FitsType.lasting valid fits
                ((Loading.agree_recordError _ _ _).trusted valid)).forget
            · exact .pure ⟨valid, fits⟩ trivial

theorem agree_check_trusted (resolves : ResolvesTrusted resolver other)
    (valid : trusting.Valid context) (fills : Fills name id context) :
    Agree trusting context (check resolver id) (check other id) fun _ _ => True := by
  refine .read rfl ?_
  split
  · refine (Loading.agree_revise_trusted fills (fun _ _ storable => storable) (?_ : Agree _ _ _ _
      fun _ _ => True)).forget
    have storable := fills.storable valid
    refine Drafting.agree_lift_bind Storable.lasting valid storable
      ((agree_recordRepeated _).trusted valid) ?_
    intro _ reached valid leads storable _
    have parameters : ∀ parameter ∈ (context.definition id).typeParameters,
        FitsType reached parameter := fun parameter member runs resolved decorated =>
      (storable runs).2.types resolved (List.mem_filterMap.mpr ⟨parameter, member, decorated⟩)
    refine .bind (Drafting.agree_onPart (Drafting.agree_each (fun _ => FitsType.lasting)
      (fun _ _ => Discipline.lasting_const trusting fun _ => True) valid parameters
      fun _ _ _ valid _ fits => agree_checkConformance_trusted resolves valid fits)
      fun later changed validLater leadsLater fits => ?_) ?_
    · have kept := Storable.lasting valid validLater leadsLater storable
      refine fun runs => ⟨(kept runs).1, fun resolved member => ?_, (kept runs).2.links⟩
      obtain ⟨parameter, among, decorated⟩ := List.mem_filterMap.mp member
      obtain ⟨_, -, fitting⟩ := exists_left_of_forall₂ fits parameter among
      exact fitting runs resolved decorated
    · rintro _ ⟨later, draft⟩ valid _ _
      refine .forM (fun _ => True) valid trivial ?_
      rintro component _ ⟨last, form⟩ ⟨valid, storable⟩ _
      exact .read rfl (Drafting.agree_lift Storable.lasting valid storable
        ((agree_checkPlaceholder form component).trusted valid)).forget
  · exact .pure valid trivial

end TypeParameters

/-! ## Sub-components -/

namespace SubComponents

/-- A sub-component that names no definition has a decoration that fits, if any. -/
def IsSound (context : Context) (component : Component) : Prop :=
  context.stopped = false → component.definition.isSome = false →
    ∀ resolved, component.resolved = some resolved → context.fits resolved = true

theorem IsSound.lasting : trusting.Lasting IsSound :=
  lasting_trusting fun respects sound unnamed resolved found =>
    respects.fits (sound unnamed resolved found)

/-- The decoration fits, if there is one. -/
def FitsDecoration (context : Context) (component : Component) : Prop :=
  context.stopped = false → ∀ resolved, component.resolved = some resolved →
    context.fits resolved = true

theorem FitsDecoration.lasting : trusting.Lasting FitsDecoration :=
  lasting_trusting fun respects fits resolved found => respects.fits (fits resolved found)

theorem FitsDecoration.isSound {component : Component} (fits : FitsDecoration context component) :
    IsSound context component :=
  fun runs _ => fits runs

theorem agree_decorate {component : Component} {resolved : Option Resolved}
    (valid : trusting.Valid context)
    (fits : FitsDecoration context { component with resolved }) :
    Agree (trusting.drafting IsSound) (context, component) (decorate resolved) (decorate resolved)
      fun _ pair => FitsDecoration pair.1 pair.2 :=
  Drafting.agree_modifyDraft valid fits.isSound fits

theorem agree_resolve_trusted (resolves : ResolvesTrusted resolver other)
    (valid : trusting.Valid context) {component : Component} (sound : IsSound context component) :
    Agree (trusting.drafting IsSound) (context, component) (resolve resolver id)
      (resolve other id) fun _ pair => FitsDecoration pair.1 pair.2 := by
  have undecorated : ∀ {context : Context} (component : Component),
      FitsDecoration context { component with resolved := none } := fun _ _ _ => nofun
  refine .read rfl (.read rfl ?_)
  dsimp only
  split
  · rename_i known isKnown
    obtain ⟨decoration, -, kept⟩ := Option.bind_eq_some_iff.mp isKnown
    obtain ⟨target, found, rfl⟩ := Option.map_eq_some_iff.mp kept
    refine agree_decorate valid fun runs resolved same => fits_iff.mpr fun handle isHandle => ?_
    cases same
    cases isHandle
    have named := named_of_resolved? (fun name id found =>
      have ⟨within, named, _⟩ := (valid runs).loaded name id found
      ⟨within, named⟩) found
    exact named
  · rename_i unnamed
    exact .pure ⟨valid, sound⟩ fun runs => sound runs (by rw [unnamed]; rfl)
  · rename_i reference _ named
    refine .bind (Drafting.agree_onPart (resolves _ (some id) context reference.clearResolution valid
      decorated_self) fun _ _ _ _ _ => fun _ unnamed => nomatch unnamed) ?_
    rintro found ⟨reached, draft⟩ ⟨valid, sound⟩ _ ⟨_, -, -, gives⟩
    cases found with
    | none => exact agree_decorate valid (undecorated draft)
    | some target =>
        refine .read rfl ?_
        split
        · refine Drafting.agree_lift_bind IsSound.lasting valid sound
            ((Loading.agree_recordError _ _ _).trusted valid) ?_
          exact fun _ later valid _ _ _ => agree_decorate valid (undecorated draft)
        · refine agree_decorate valid fun runs resolved same => ?_
          cases same
          exact (valid runs).fits (gives runs target rfl)

theorem agree_resolveAll_trusted (resolves : ResolvesTrusted resolver other)
    (valid : trusting.Valid context) (fills : Fills name id context) :
    Agree trusting context (resolveAll resolver id) (resolveAll other id) fun _ reached =>
      reached.stopped = false → reached.FitsLinks (reached.definition id).links := by
  refine .read rfl ?_
  split
  · refine (Loading.agree_revise_trusted fills (fun _ _ storable => storable) (?_ : Agree _ _ _ _
      fun _ (pair : Context × Definition) =>
        pair.1.stopped = false → pair.1.FitsLinks pair.2.links)).mono ?_
    · refine Drafting.agree_lift_bind Storable.lasting valid (fills.storable valid)
        ((agree_recordRepeated _).trusted valid) ?_
      intro _ reached valid leads storable _
      have sound : ∀ component ∈ (context.definition id).components, IsSound reached component :=
        fun component member runs =>
          (storable runs).2.links component.link (List.mem_map_of_mem member)
      refine .bind (Drafting.agree_onPart (Drafting.agree_each (fun _ => IsSound.lasting)
        (fun _ _ => FitsDecoration.lasting) valid sound
        fun _ _ _ valid _ sound => agree_resolve_trusted resolves valid sound)
        fun later changed validLater leadsLater sound => ?_) ?_
      · have kept := Storable.lasting valid validLater leadsLater storable
        refine fun runs => ⟨(kept runs).1, (kept runs).2.types, fun link member => ?_⟩
        obtain ⟨component, among, rfl⟩ := List.mem_map.mp member
        obtain ⟨_, -, holds⟩ := exists_left_of_forall₂ sound component among
        exact holds runs
      · rintro _ ⟨later, _⟩ valid _ ⟨changed, rfl, -, visited⟩
        refine .pure valid fun runs link member => ?_
        obtain ⟨component, among, rfl⟩ := List.mem_map.mp member
        obtain ⟨_, -, fits⟩ := exists_left_of_forall₂ visited.items component among
        exact fits runs
    · rintro _ _ valid _ ⟨before, draft, rfl, fills, leads, fits⟩ runs
      obtain ⟨running, respects⟩ := leads runs
      rw [definition_replace before draft (fills running).within]
      exact respects.fitsLinks (fits running)
  · rename_i absent
    refine .pure valid fun _ link member => ?_
    have empty : (context.definition id).components = [] := by simpa using absent
    rw [Definition.links, empty] at member
    cases member

end SubComponents

/-! ## Parents -/

namespace Parents

/-- A draft that may be stored for the name and can be trusted. -/
def Trusted (name : String) (context : Context) (draft : Definition) : Prop :=
  context.stopped = false → draft.name = name ∧ context.trusts draft = true

theorem Trusted.lasting : trusting.Lasting (Trusted name) :=
  lasting_trusting fun respects trusted => trusted.imp_right respects.trusts

theorem Trusted.storable {draft : Definition} (trusted : Trusted name context draft) :
    Storable name context draft :=
  fun runs => (trusted runs).imp_right isSane_of_trusts

theorem agree_judge (valid : trusting.Valid context) (child : Definition) {parent : DefinitionId}
    {reference : Reference} (gives : GivesLoaded (some parent) context) :
    Agree (trusting.drafting fun _ _ => True) (context, reference) (judge child parent)
      (judge child parent) fun found pair => GivesLoaded found pair.1 := by
  refine .read rfl (.read rfl ?_)
  split
  · exact .pure ⟨valid, trivial⟩ gives
  · exact Drafting.agree_lift_bind (Discipline.lasting_const trusting fun _ => True) valid trivial
      ((Loading.agree_recordError _ _ _).trusted valid)
      fun _ _ valid _ _ _ => .pure ⟨valid, trivial⟩ .none

theorem agree_resolve_trusted (loads : LoadsTrusted load twin)
    (resolves : ResolvesTrusted resolver other) (valid : trusting.Valid context)
    (child : Definition) (reference : Reference) :
    Agree (trusting.drafting fun _ _ => True) (context, reference)
      (resolve resolver load id child) (resolve other twin id child)
      fun found pair => GivesLoaded found pair.1 := by
  refine .bind (Drafting.agree_under (resolves _ (some id) context reference valid decorated_self)
    (fun _ valid _ => valid) (fun _ _ leads => leads) (fun _ _ => trivial)
    fun _ _ _ _ _ => trivial) ?_
  rintro found ⟨reached, draft⟩ ⟨valid, -⟩ _ gives
  cases found with
  | none => exact .pure ⟨valid, trivial⟩ .none
  | some target =>
      refine .read rfl ?_
      refine Drafting.agree_lift_bind (Discipline.lasting_const trusting fun _ => True) valid trivial
        (agree_substituteValues_trusted loads valid draft (fun runs => gives runs target rfl)
          true) ?_
      intro substitution later valid leads _ holds
      cases substitution with
      | notApplicable => exact agree_judge valid child (gives.lasts leads)
      | failed => exact agree_judge valid child (gives.lasts leads)
      | substituted copy =>
          refine .read rfl ?_
          refine .through (fun _ pair => GivesLoaded (some copy) pair.1)
            (Drafting.agree_modifyDraft valid trivial fun runs id found => ?_) ?_
          · cases found
            exact holds copy rfl runs
          · exact fun _ _ valid _ gives => agree_judge valid.1 child gives

/-- Inherited sub-components can be trusted as well as own ones. -/
theorem Trusted.merged {own inherited : Definition} (trusted : Trusted name context own)
    (links : context.stopped = false → context.FitsLinks inherited.links) :
    Trusted name context (Inheritance.merged own inherited) := by
  intro runs
  obtain ⟨named, trusts⟩ := trusted runs
  obtain ⟨types, ownLinks⟩ := trusts_iff.mp trusts
  exact ⟨named, trusts_iff.mpr ⟨types, fun link member =>
    (links_merged link member).elim (links runs link) (ownLinks link)⟩⟩

/-- What loaded parents hand on fits. -/
theorem agree_combine_trusted (valid : trusting.Valid context) (combined : Option Definition)
    (parents : List DefinitionId)
    (prior : context.stopped = false → ∀ definition, combined = some definition →
      context.FitsLinks definition.links)
    (loaded : context.stopped = false → ∀ parent ∈ parents, context.Loaded parent) :
    Agree trusting context (combine combined parents) (combine combined parents)
      fun result reached => reached.stopped = false → ∀ definition, result = some definition →
        reached.FitsLinks definition.links := by
  induction parents generalizing context combined with
  | nil => exact .pure valid prior
  | cons parent rest induction =>
      refine .read rfl ?_
      have others : context.stopped = false → ∀ parent ∈ rest, context.Loaded parent :=
        fun runs parent member => loaded runs parent (List.mem_cons_of_mem _ member)
      have first : context.stopped = false →
          context.FitsLinks (Inheritance.inheritable (context.definition parent)).links :=
        fun runs => (trusts_iff.mp ((valid runs).trusts (loaded runs parent List.mem_cons_self))).2
      cases combined with
      | none =>
          refine induction valid _ (fun runs definition found => ?_) others
          cases found
          exact first runs
      | some combined =>
          refine .bind ((agree_inherit _ _ _).trusted valid) ?_
          rintro _ reached valid leads ⟨⟨rfl, -⟩, -⟩
          refine induction valid _ (fun runs definition found link member => ?_)
            fun runs parent member => have ⟨running, respects⟩ := leads runs
              respects.loaded (others running parent member)
          cases found
          obtain ⟨running, respects⟩ := leads runs
          rcases links_merged link member with old | new
          · exact respects.fitsLinks (prior running combined rfl) link old
          · exact respects.fitsLinks (first running) link new

/-- What is left by a stop need not be trusted. -/
theorem agree_takeOver_trusted (valid : trusting.Valid context) {own inherited : Definition}
    (merged : Trusted name context (Inheritance.merged own inherited)) :
    Agree (trusting.drafting (Trusted name)) (context, own)
      (do takeOver inherited; Drafting.modifyDraft markMerged)
      (do takeOver inherited; Drafting.modifyDraft markMerged) fun _ _ => True := by
  have recorded := (agree_recordProblems true own inherited).trusted valid
  have taken := takeOver_apply inherited own context
  have validAfter := recorded.valid
  have leads := recorded.leads
  rcases outcome : Loading.recordAll (Inheritance.problems own inherited true) context with
    ⟨result, reached⟩
  rw [outcome] at taken validAfter leads
  cases result with
  | ok value =>
      exact .run (Step.bind_of_ok taken) ⟨validAfter, Trusted.lasting valid validAfter leads merged⟩
        leads trivial
  | error error =>
      have stops : reached.stopped = true := by
        obtain ⟨-, policy, reported⟩ := stops_of_recordAll_error outcome
        simp [Context.stopped, policy, reported]
      have left : Trusted name reached (.blank false) := by
        intro runs
        cases stops.symm.trans runs
      exact .ends (Step.bind_of_error taken) (Step.bind_of_error taken) ⟨validAfter, left⟩ leads
        trivial

theorem agree_merge_trusted (loads : LoadsTrusted load twin)
    (resolves : ResolvesTrusted resolver other) (valid : trusting.Valid context)
    (fills : Fills name id context)
    (links : context.stopped = false → context.FitsLinks (context.definition id).links) :
    Agree trusting context (merge resolver load id) (merge other twin id) fun _ reached =>
      reached.stopped = false → reached.FitsLinks (reached.definition id).links := by
  have trusted : Trusted name context (context.definition id) := fun runs =>
    ⟨(fills runs).named, ((valid runs).sane id).trusts (links runs)⟩
  refine .read rfl ?_
  split
  · exact .pure valid links
  · split
    · refine (Loading.agree_replace_trusted valid fills (fills.storable valid).markMerged).mono ?_
      rintro _ _ _ leads rfl runs
      obtain ⟨running, respects⟩ := leads runs
      rw [definition_replace context _ (fills running).within]
      exact respects.fitsLinks (links running)
    · refine (Loading.agree_revise_trusted fills (fun _ _ => Trusted.storable) (Agree.mono (?_ :
        Agree (trusting.drafting (Trusted name)) _ _ _ fun _ _ => True)
        fun _ (pair : Context × Definition) valid _ _ => valid.2)).mono ?_
      · refine .bind (Drafting.agree_onPart
          (Drafting.agree_each (fun _ => Discipline.lasting_const trusting fun _ => True)
            (fun _ found => (fun _ _ _ _ _ leads gives => GivesLoaded.lasts gives leads :
              trusting.Lasting fun context (_ : Reference) => GivesLoaded found context))
            valid (fun _ _ => trivial) fun _ _ reference valid _ _ =>
              agree_resolve_trusted loads resolves valid _ reference)
          fun _ parents validReached leads _ => Trusted.lasting valid validReached leads trusted) ?_
        rintro found ⟨reached, _⟩ ⟨valid, trusted⟩ leads ⟨parents, rfl, -, visited⟩
        have loaded (runs : reached.stopped = false) :
            ∀ parent ∈ found.filterMap fun parent => parent, reached.Loaded parent := by
          intro parent member
          obtain ⟨_, among, rfl⟩ := List.mem_filterMap.mp member
          obtain ⟨_, -, gives⟩ := exists_right_of_forall₂ visited.values _ among
          exact gives runs parent rfl
        refine Drafting.agree_lift_bind Trusted.lasting valid trusted
          (agree_combine_trusted valid none _ (fun _ _ => nofun) loaded) ?_
        intro inherited later valid _ trusted handed
        cases inherited with
        | none => exact Drafting.agree_modifyDraft valid trusted trivial
        | some inherited =>
            exact agree_takeOver_trusted valid (trusted.merged fun runs => handed runs _ rfl)
      · rintro _ _ _ _ ⟨before, draft, rfl, fills, leads, trusted⟩ runs
        obtain ⟨running, respects⟩ := leads runs
        rw [definition_replace before draft (fills running).within]
        exact respects.fitsLinks (trusts_iff.mp (trusted running).2).2

end Parents

/-! ## The stages together -/

namespace Stage

/-- The slot is filled, and what is there can be trusted. -/
def Trusts (name : String) (id : DefinitionId) (context : Context) : Prop :=
  context.stopped = false → context.IsOpen name id ∧
    context.FitsLinks (context.definition id).links

theorem agree_runEditing_trusted (harmless : frontEnd.registry.IsHarmless) {stage : Stage}
    (others : stage ∉ loading) (valid : trusting.Valid context) (fills : Fills name id context) :
    Agree trusting context (stage.run frontEnd load name id) (stage.run frontEnd twin name id)
      fun _ reached => reached.stopped = false →
        (context.definition id).Edits (reached.definition id) := by
  have same : stage.run frontEnd load name id = stage.run frontEnd twin name id := run_eq others
  cases stops : context.stopped with
  | true =>
      have stays : (stage.run frontEnd load name id context).2.stopped = true :=
        stopped_run harmless others stops
      rcases outcome : stage.run frontEnd load name id context with ⟨result, reached⟩
      rw [outcome] at stays
      refine .ends outcome (same ▸ outcome) (fun runs => nomatch stays.symm.trans runs)
        (fun runs => nomatch stays.symm.trans runs) ?_
      cases result with
      | ok value => exact fun runs => nomatch stays.symm.trans runs
      | error error => trivial
  | false =>
      have safe := valid stops
      have isOpen := fills stops
      have replaced {reached : Context} (edited : EditedAt name id context reached) :=
        safe.replace isOpen (edited.edits.keeps.name.trans isOpen.named)
          ((safe.sane id).edits edited.edits)
      have agree : Agree (editing name id) context (stage.run frontEnd load name id)
          (stage.run frontEnd twin name id) fun _ reached => reached.stopped = false →
            (context.definition id).Edits (reached.definition id) :=
        (agree_runEditing harmless others (safe.making isOpen)).mono
          fun _ _ _ edited _ _ => EditedAt.edits edited
      exact agree.under
        (fun _ _ edited _ => (replaced edited).1.of_reports (EditedAt.reports edited))
        (fun _ _ edited _ => ⟨stops, (replaced edited).2.trans
          (.of_reports (EditedAt.reports edited))⟩) fun _ _ => trivial

theorem runChecked_eq {stage : Stage} (member : stage ∈ afterParents) :
    stage.runChecked violation frontEnd load name id =
      (do Loading.checkSlot violation id; stage.run frontEnd load name id) := by
  simp only [afterParents, List.mem_cons, List.not_mem_nil, or_false] at member
  rcases member with rfl | rfl | rfl | rfl | rfl | rfl | rfl | rfl | rfl | rfl | rfl <;> rfl

theorem runChecked_of_first {stage : Stage}
    (first : stage = .annotations ∨ stage = .process .afterParsing) :
    stage.runChecked violation frontEnd load name id = stage.run frontEnd load name id := by
  rcases first with rfl | rfl <;> rfl

/-- After the parents every stage finds what it can trust, and leaves it so. -/
theorem agree_runAfterParents (harmless : frontEnd.registry.IsHarmless)
    (valid : trusting.Valid context) (trusts : Trusts name id context) :
    Agree trusting context (afterParents.forM (run frontEnd load name id))
      (afterParents.forM (runChecked violation frontEnd twin name id))
      fun _ => Trusts name id := by
  have others : ∀ stage ∈ afterParents, stage ∉ loading := by decide
  refine .forM (Trusts name id) valid trusts fun stage member reached valid trusts => ?_
  have checks : Loading.checkSlot violation id reached = (.ok (), reached) :=
    (Step.bind_of_ok rfl).trans (Loading.check_of_trusts fun runs =>
      ((valid runs).sane id).trusts (trusts runs).2)
  rw [runChecked_eq member]
  refine .of_eq rfl (Step.bind_of_ok checks) ?_
  refine (agree_runEditing_trusted harmless (others stage member) valid
    fun runs => (trusts runs).1).mono fun _ later _ leads edits runs => ?_
  obtain ⟨running, respects⟩ := leads runs
  obtain ⟨isOpen, links⟩ := trusts running
  refine ⟨isOpen.lasts respects, ?_⟩
  rw [(edits runs).keeps.links]
  exact respects.fitsLinks links

theorem agree_runAll_trusted (harmless : frontEnd.registry.IsHarmless)
    (loads : LoadsTrusted load twin) (valid : trusting.Valid context)
    (fills : Fills name id context) :
    Agree trusting context (all.forM (run frontEnd load name id))
      (all.forM (runChecked violation frontEnd twin name id)) fun _ => Trusts name id := by
  have resolves : ResolvesTrusted (full frontEnd load) (fullChecked violation frontEnd twin) :=
    trusted_full harmless loads
  have edits {reached : Context} (stage : Stage)
      (first : stage = .annotations ∨ stage = .process .afterParsing)
      (valid : trusting.Valid reached) (fills : Fills name id reached) :
      Agree trusting reached (stage.run frontEnd load name id)
        (stage.runChecked violation frontEnd twin name id) fun _ _ => True := by
    have others : stage ∉ loading := by rcases first with rfl | rfl <;> decide
    rw [runChecked_of_first first]
    exact (agree_runEditing_trusted harmless others valid fills).forget
  rw [all_eq]
  refine .bind (edits .annotations (.inl rfl) valid fills) ?_
  intro _ checked valid leads _
  have fills := fills.lasts leads
  refine .bind (edits (.process .afterParsing) (.inr rfl) valid fills) ?_
  intro _ processed valid leads _
  have fills := fills.lasts leads
  refine .bind (TypeParameters.agree_check_trusted resolves valid fills) ?_
  intro _ conforming valid leads _
  have fills := fills.lasts leads
  refine .bind (SubComponents.agree_resolveAll_trusted resolves valid fills) ?_
  intro _ resolved valid leads links
  have fills := fills.lasts leads
  refine .bind (Parents.agree_merge_trusted loads resolves valid fills links) ?_
  intro _ merged valid leads links
  exact agree_runAfterParents harmless valid fun runs => ⟨fills.lasts leads runs, links runs⟩

end Stage

end Adl
