import Adl.Proofs.Loading.Path

namespace Adl

open Step

/-! The disciplines of a compilation, and the steps that all others are made of. -/

namespace Context

/-- Steps that only report, from any state. -/
def reporting : Discipline Context where
  Valid _ := True
  Leads := Reports
  Fails := LoadError.IsGrave
  refl := Reports.refl
  trans := Reports.trans

/-- Steps between sound states that write to no slot but `own`. Something more may be
known of the states. -/
def evolving (frontEnd : FrontEnd) (strict : Prop) (own : Option DefinitionId)
    (Extra : Context → Prop) : Discipline Context where
  Valid context := context.Sound strict ∧ Extra context
  Leads := Advances frontEnd strict own
  Fails error := strict → error.IsGrave
  refl := Advances.refl
  trans := Advances.trans

/-- What is not lost while no slot under work is written. -/
def Lasts (frontEnd : FrontEnd) (strict : Prop) (Extra : Context → Prop) : Prop :=
  ∀ ⦃before after⦄, Advances frontEnd strict none before after → Extra before → Extra after

/-- What is known while the definition of a slot is made, wherever this has led to. -/
structure Attends (frontEnd : FrontEnd) (strict : Prop) (name : String) (id : DefinitionId)
    (Extra : Context → Prop) : Prop where
  making : ∀ ⦃context⦄, Extra context → Making name id context
  follows : ∀ ⦃own before after⦄, Making name id after → Advances frontEnd strict own before after →
    Extra before → Extra after

theorem Attends.lasts {frontEnd : FrontEnd} {strict : Prop} {name : String} {id : DefinitionId}
    {Extra : Context → Prop} (attends : Attends frontEnd strict name id Extra) :
    Lasts frontEnd strict Extra :=
  fun _ _ advances extra =>
    attends.follows ((attends.making extra).lasts advances.toEvolves) advances extra

theorem attends_making (frontEnd : FrontEnd) (strict : Prop) (name : String) (id : DefinitionId) :
    Attends frontEnd strict name id (Making name id) :=
  ⟨fun _ making => making, fun _ _ _ making _ _ => making⟩

/-- A definition that may be stored in the slot that is made for the name: it is generic or
not, as the one that was found. Once the sub-components are resolved it has to stay `whole`. -/
structure Made (strict whole : Prop) (name : String) (generic : Bool) (context : Context)
    (definition : Definition) : Prop where
  names : context.Names name definition
  shape : context.log.errors = [] → definition.isGeneric = generic
  linked : strict → context.Linked definition.links
  complete : strict → whole → context.Complete definition.links

/-- Steps that make the definition of a slot. -/
def making (frontEnd : FrontEnd) (strict whole : Prop) (name : String) (generic : Bool)
    (id : DefinitionId) : Discipline Context :=
  evolving frontEnd strict (some id) fun context =>
    Making name id context ∧ Made strict whole name generic context (context.definition id)

end Context

open Context

/-- What is said of an optional value: where there is none, errors were reported. -/
def Answers {α : Type} (strict : Prop) (post : α → Context → Prop) :
    Option α → Context → Prop
  | some value, context => post value context
  | none, context => strict → context.log.errors ≠ []

/-- Loading keeps the discipline, and what it gives is loaded under the name. -/
def Loads (frontEnd : FrontEnd) (strict : Prop) (Extra : Context → Prop)
    (load twin : String → Loading DefinitionId) : Prop :=
  ∀ name context, context.Sound strict → Extra context →
    Agree (evolving frontEnd strict none Extra) context (load name) (twin name)
      fun id reached => reached.cache.find? name = some id

theorem Loads.kept {frontEnd : FrontEnd} {strict : Prop} {Extra : Context → Prop}
    {load twin : String → Loading DefinitionId} (loads : Loads frontEnd strict Extra load twin)
    (name : String) (context : Context)
    (valid : (evolving frontEnd strict none Extra).Valid context) :
    Agree (evolving frontEnd strict none Extra) context (load name) (twin name) fun _ _ => True :=
  (loads name context valid.1 valid.2).forget

section Disciplines

variable {α Draft : Type} {frontEnd : FrontEnd} {strict : Prop} {own : Option DefinitionId}
  {Extra : Context → Prop} {context : Context} {left right : Loading α}
  {post : α → Context → Prop} {Good : Context → Draft → Prop}

theorem Step.Agree.reported (sound : context.Sound strict) (extra : Extra context)
    (lasts : Lasts frontEnd strict Extra) (agree : Agree reporting context left right post) :
    Agree (evolving frontEnd strict own Extra) context left right post :=
  agree.under (fun _ _ reports => ⟨sound.ofReports reports, lasts (.ofReports reports) extra⟩)
    (fun _ _ reports => .ofReports reports) (fun _ grave _ => grave)

theorem Drafting.agree_reported {draft : Draft} {left right : Revising Draft α}
    {post : α → Context × Draft → Prop} (sound : context.Sound strict) (extra : Extra context)
    (lasts : Lasts frontEnd strict Extra)
    (agree : Agree (reporting.drafting Good) (context, draft) left right post) :
    Agree ((evolving frontEnd strict own Extra).drafting Good) (context, draft) left right post :=
  agree_under agree
    (fun _ _ reports => ⟨sound.ofReports reports, lasts (.ofReports reports) extra⟩)
    (fun _ _ reports => .ofReports reports) (fun _ grave _ => grave) (fun _ _ _ _ good => good)

end Disciplines

/-! ## Reports -/

namespace Loading

variable {context : Context}

theorem reports_withLog (log : DiagnosticLog) (policy : log.policy = context.log.policy)
    (errors : context.log.errors <+: log.errors) :
    Reports context { context with log } :=
  { Reports.refl context with policy, errors }

theorem agree_record (diagnostic : Diagnostic) :
    Agree reporting context (record diagnostic) (record diagnostic)
      fun _ reached => diagnostic.isError = true → reached.log.errors ≠ [] := by
  have run : record diagnostic context =
      ((DiagnosticLog.record diagnostic context.log).1,
        { context with log := (DiagnosticLog.record diagnostic context.log).2 }) := rfl
  by_cases severe : diagnostic.isError = true
  · by_cases known : diagnostic ∈ context.log.errors
    · have recorded : DiagnosticLog.record diagnostic context.log = (.ok (), context.log) := by
        simp [DiagnosticLog.record, severe, known]
      rw [recorded] at run
      exact .run run trivial (reports_withLog _ rfl (List.prefix_refl _))
        fun _ => List.ne_nil_of_mem known
    · have grows := List.prefix_append context.log.errors [diagnostic]
      cases policy : context.log.policy with
      | collect =>
          have recorded : DiagnosticLog.record diagnostic context.log =
              (.ok (), { context.log with errors := context.log.errors ++ [diagnostic] }) := by
            simp [DiagnosticLog.record, severe, known, policy]
          rw [recorded] at run
          exact .run run trivial (reports_withLog _ rfl grows)
            fun _ => List.append_ne_nil_of_right_ne_nil _ (List.cons_ne_nil _ _)
      | failFast =>
          have recorded : DiagnosticLog.record diagnostic context.log =
              (.error .aborted,
                { context.log with errors := context.log.errors ++ [diagnostic] }) := by
            simp [DiagnosticLog.record, severe, known, policy]
          rw [recorded] at run
          exact ⟨rfl, trivial, run ▸ reports_withLog _ rfl grows, run ▸ LoadError.isGrave_aborted⟩
  · have recorded : DiagnosticLog.record diagnostic context.log =
        (.ok (), context.log.warned diagnostic) := by
      simp [DiagnosticLog.record, severe]
    rw [recorded] at run
    exact .run run trivial (reports_withLog _ rfl (List.prefix_refl _))
      fun isError => absurd isError severe

theorem agree_recordError (kind : DiagnosticKind) (span : Span) (message : String) :
    Agree reporting context (recordError kind span message) (recordError kind span message)
      fun _ reached => reached.log.errors ≠ [] :=
  (agree_record _).mono fun _ _ _ _ present => present rfl

theorem agree_recordAll (diagnostics : List Diagnostic) :
    Agree reporting context (recordAll diagnostics) (recordAll diagnostics)
      fun _ reached => ∀ diagnostic ∈ diagnostics, diagnostic.isError = true →
        reached.log.errors ≠ [] := by
  refine .forM_all (fun (diagnostic : Diagnostic) (reached : Context) =>
    diagnostic.isError = true → reached.log.errors ≠ []) ?_ trivial ?_
  · intro _ before after _ _ reports recorded severe
    exact Reports.evolves reports |>.errors_ne_nil (recorded severe)
  · exact fun diagnostic _ reached _ _ => agree_record diagnostic

theorem agree_warn (kind : DiagnosticKind) (span : Span) (message : String) :
    Agree reporting context (warn kind span message) (warn kind span message)
      fun _ _ => True :=
  .run rfl trivial (reports_withLog (context.log.warned _) rfl (List.prefix_refl _)) trivial

/-- The first use of a parameter gives it its type. -/
theorem inferredType?_infer (context : Context) (definition parameter other used : String)
    (type : ParameterType) :
    (context.infer definition parameter type).inferredType? other used =
      if definition = other ∧ parameter = used then
        some ((context.inferredType? definition parameter).getD type)
      else context.inferredType? other used := by
  unfold Context.infer
  split
  · rename_i known found
    split
    · rename_i same
      obtain ⟨rfl, rfl⟩ := same
      rw [found]
      rfl
    · rfl
  · rename_i absent
    rw [absent]
    simp only [Context.inferredType?, Option.bind_eq_bind, Table.find?_insert] at absent ⊢
    by_cases sameDefinition : definition = other
    · cases sameDefinition
      rw [if_pos rfl, Option.bind_some, Table.find?_insert]
      by_cases sameParameter : parameter = used
      · simp [sameParameter]
      · rw [if_neg sameParameter, if_neg fun same => sameParameter same.2]
        cases context.inferredTypes.find? definition <;> rfl
    · rw [if_neg sameDefinition, if_neg fun same => sameDefinition same.1]

theorem reports_infer (context : Context) (definition parameter : String)
    (type : ParameterType) : Reports context (context.infer definition parameter type) := by
  have types : context.KeepsTypes (context.infer definition parameter type) := by
    intro other used known found
    rw [inferredType?_infer]
    split
    · rename_i same
      obtain ⟨rfl, rfl⟩ := same
      rw [found]
      rfl
    · exact found
  revert types
  simp only [Context.infer]
  split
  · exact fun _ => Reports.refl context
  · exact fun types => { Reports.refl context with types }

theorem agree_infer (definition parameter : String) (type : ParameterType) :
    Agree reporting context (infer definition parameter type)
      (infer definition parameter type) fun previous reached =>
        previous = context.inferredType? definition parameter ∧
          reached.inferredType? definition parameter = some (previous.getD type) :=
  .run rfl trivial (reports_infer context definition parameter type)
    ⟨rfl, (inferredType?_infer ..).trans (if_pos ⟨rfl, rfl⟩)⟩

end Loading

/-! ## Steps on slots -/

section Slots

variable {α : Type} {frontEnd : FrontEnd} {strict whole : Prop} {own : Option DefinitionId}
  {Extra : Context → Prop} {context : Context} {name : String} {generic : Bool}
  {id : DefinitionId}

theorem Diagnostic.isError_placedAt (diagnostic : Diagnostic) (span : Span) :
    (diagnostic.placedAt span).isError = diagnostic.isError :=
  rfl

/-- A load that does not succeed gives no value only where errors are reported. -/
theorem Loading.agree_orRecorded {left right : Loading α} {post : α → Context → Prop}
    (lasts : Lasts frontEnd strict Extra) (span : Span)
    (agree : Agree (evolving frontEnd strict none Extra) context left right post) :
    Agree (evolving frontEnd strict none Extra) context (Loading.orRecorded left span)
      (Loading.orRecorded right span) (Answers strict post) := by
  refine .bind agree.outcome ?_
  intro result reached valid _ ended
  cases result with
  | ok value => exact .pure valid ended
  | error error =>
      cases error with
      | fatal diagnostic =>
          refine .bind ((Loading.agree_record _).reported valid.1 valid.2 lasts) ?_
          intro _ later valid _ recorded
          refine .pure valid fun isStrict => recorded ?_
          rw [Diagnostic.isError_placedAt]
          exact ended isStrict diagnostic rfl
      | aborted => exact .fail valid ended
      | internal error => exact .fail valid ended

theorem Loading.agree_register (sound : context.Sound strict) (extra : Extra context)
    (lasts : Lasts frontEnd strict Extra) {added : Definition} (unknown : context.isKnown name = false)
    (names : added.name = name) (linked : strict → context.Linked added.links)
    (path : Path frontEnd strict context (context.register name added).2) :
    Agree (evolving frontEnd strict none Extra) context (Loading.register name added)
      (Loading.register name added) fun _ _ => True := by
  have absent : context.registered.find? name = none := by
    simp only [Context.isKnown, Bool.or_eq_false_iff] at unknown
    exact Table.find?_eq_none_of_not_contains unknown.1.2
  have evolves : Evolves none context _ := .register context added absent
  exact .run rfl ⟨sound.register names linked, lasts ⟨evolves, path⟩ extra⟩ ⟨evolves, path⟩ trivial

theorem Context.Made.lasts {before after : Context} {definition : Definition}
    (made : Made strict whole name generic before definition) (sound : before.Sound strict)
    (evolves : Evolves own before after)
    (foreign : ∀ target, before.Loaded target → own ≠ some target) :
    Made strict whole name generic after definition where
  names := made.names.lasts evolves
  shape silent := made.shape (evolves.errors_eq_nil silent)
  linked isStrict := (made.linked isStrict).lasts sound evolves foreign
  complete isStrict isWhole := (made.complete isStrict isWhole).lasts evolves

/-- A definition that may be stored in the place of `base`: loading makes it of that, as long
as no errors are reported. -/
structure Context.Replaces (strict whole : Prop) (name : String) (generic : Bool)
    (base : Definition) (context : Context) (definition : Definition) : Prop
    extends Made strict whole name generic context definition where
  grows : context.log.errors = [] → Definition.Grows strict context base definition

/-- What is loaded stays as it is while no slot under work is written. -/
theorem Context.Sound.loaded_lasts {before after : Context} (sound : before.Sound strict)
    (evolves : Evolves none before after) (id : DefinitionId) (loaded : before.Loaded id) :
    after.Loaded id ∧ after.definition id = before.definition id :=
  ⟨loaded.lasts evolves, sound.definition_of_loaded evolves nofun loaded⟩

theorem Context.Sound.grows_lasts {before after : Context} {base definition : Definition}
    (sound : before.Sound strict) (evolves : Evolves none before after)
    (grows : before.log.errors = [] → Definition.Grows strict before base definition) :
    after.log.errors = [] → Definition.Grows strict after base definition :=
  fun silent => (grows (evolves.errors_eq_nil silent)).lasts (sound.loaded_lasts evolves)

theorem Context.Replaces.lasting {base : Definition} :
    (evolving frontEnd strict none Extra).Lasting (Replaces strict whole name generic base) :=
  fun _ _ _ valid _ leads replaces =>
    ⟨replaces.toMade.lasts valid.1 leads.toEvolves nofun,
      valid.1.grows_lasts leads.toEvolves replaces.grows⟩

/-- A draft that may be stored in the place of `base` and bears its name. -/
structure Context.Drafted (strict whole : Prop) (name : String) (generic : Bool)
    (base : Definition) (context : Context) (draft : Definition) : Prop where
  name : draft.name = name
  shape : context.log.errors = [] → draft.isGeneric = generic
  linked : strict → context.Linked draft.links
  complete : strict → whole → context.Complete draft.links
  grows : context.log.errors = [] → Definition.Grows strict context base draft

variable {base : Definition}

theorem Context.Made.drafted {definition : Definition}
    (made : Made strict whole name generic context definition) (named : definition.name = name) :
    Drafted strict whole name generic definition context definition :=
  ⟨named, made.shape, made.linked, made.complete, fun _ => .refl context definition⟩

theorem Context.Drafted.replaces {draft : Definition}
    (drafted : Drafted strict whole name generic base context draft) :
    Replaces strict whole name generic base context draft :=
  ⟨⟨.inl drafted.name, drafted.shape, drafted.linked, drafted.complete⟩, drafted.grows⟩

theorem Context.Replaces.drafted {draft : Definition}
    (replaces : Replaces strict whole name generic base context draft) (named : draft.name = name) :
    Drafted strict whole name generic base context draft :=
  ⟨named, replaces.shape, replaces.linked, replaces.complete, replaces.grows⟩

theorem Context.Drafted.lasting :
    (evolving frontEnd strict none Extra).Lasting (Drafted strict whole name generic base) :=
  fun _ _ _ before after leads drafted =>
    (Replaces.lasting before after leads drafted.replaces).drafted drafted.name

theorem Context.Drafted.edits {draft changed : Definition}
    (drafted : Drafted strict whole name generic base context draft)
    (edits : draft.Edits changed) :
    Drafted strict whole name generic base context changed where
  name := edits.keeps.name.trans drafted.name
  shape silent := edits.keeps.isGeneric.trans (drafted.shape silent)
  linked := edits.keeps.links ▸ drafted.linked
  complete := edits.keeps.links ▸ drafted.complete
  grows silent := (drafted.grows silent).trans (.of_edits edits)

theorem Context.Drafted.conforms {draft changed : Definition}
    (drafted : Drafted strict whole name generic base context draft)
    (conforms : draft.Conforms changed) :
    Drafted strict whole name generic base context changed where
  name := conforms.keeps.name.trans drafted.name
  shape silent := conforms.keeps.isGeneric.trans (drafted.shape silent)
  linked := conforms.keeps.links ▸ drafted.linked
  complete := conforms.keeps.links ▸ drafted.complete
  grows silent := (drafted.grows silent).trans (.of_conforms conforms)

theorem Context.Replaces.advances {made : Definition} (making : Making name id context)
    (current : Made strict whole name generic context (context.definition id))
    (replaces : Replaces strict whole name generic (context.definition id) context made) :
    Advances frontEnd strict (some id) context (context.replace id made) where
  toEvolves := making.evolves replaces.names fun silent =>
    (replaces.shape silent).trans (current.shape silent).symm
  path := .written .start making replaces.grows

theorem valid_replace {made : Definition} (sound : context.Sound strict)
    (making : Making name id context)
    (current : Made strict whole name generic context (context.definition id))
    (holds : Made strict whole name generic context made) :
    (Context.making frontEnd strict whole name generic id).Valid (context.replace id made) := by
  have shape : context.log.errors = [] →
      made.isGeneric = (context.definition id).isGeneric :=
    fun silent => (holds.shape silent).trans (current.shape silent).symm
  refine ⟨sound.replace making holds.names shape holds.linked, making.replace holds.names, ?_⟩
  rw [definition_replace context made making.within]
  exact holds.lasts sound (making.evolves holds.names shape) fun _ loaded equal =>
    making.ne_of_loaded loaded (Option.some.inj equal)

theorem Loading.agree_replace {made : Definition}
    (valid : (Context.making frontEnd strict whole name generic id).Valid context)
    (replaces : Replaces strict whole name generic (context.definition id) context made) :
    Agree (Context.making frontEnd strict whole name generic id) context
      (Loading.replace id made) (Loading.replace id made)
      fun _ reached => reached.definition id = made ∧ reached = context.replace id made :=
  .run rfl (valid_replace valid.1 valid.2.1 valid.2.2 replaces.toMade)
    (replaces.advances valid.2.1 valid.2.2)
    ⟨definition_replace context made valid.2.1.within, rfl⟩

/-- A revision of the slot that is made, during which other definitions may be loaded. -/
theorem Loading.agree_revise {left right : Revising Definition Unit}
    {post : Unit → Context × Definition → Prop}
    (attends : Attends frontEnd strict name id Extra)
    (current : Made strict whole name generic context (context.definition id))
    (making : Making name id context) (sound : context.Sound strict)
    (agree : Agree ((evolving frontEnd strict none Extra).drafting
        (Replaces strict whole name generic (context.definition id)))
      (context, context.definition id) left right post) :
    Agree (Context.making frontEnd strict whole name generic id) context
      (Loading.revise id left) (Loading.revise id right) fun value reached =>
        ∃ before draft, reached = before.replace id draft ∧ id < before.arena.size ∧
          Advances frontEnd strict (some id) before reached ∧ post value (before, draft) := by
  have same := agree.same
  have valid := agree.valid
  have leads := agree.leads
  have ended := agree.ended
  rcases outcome : left (context, context.definition id) with ⟨result, reached, draft⟩
  rw [outcome] at same valid leads ended
  have leftRun : Loading.revise id left context = (result, reached.replace id draft) := by
    simp only [Loading.revise, outcome]
  have rightRun : Loading.revise id right context = (result, reached.replace id draft) := by
    simp only [Loading.revise, ← same]
  have unchanged := making.definition (Advances.toEvolves leads)
  have stays : Made strict whole name generic reached (reached.definition id) := by
    rw [unchanged]
    exact current.lasts sound (Advances.toEvolves leads) nofun
  have isMaking := attends.making valid.1.2
  have advances : Advances frontEnd strict (some id) reached (reached.replace id draft) :=
    (unchanged.symm ▸ valid.2).advances isMaking stays
  refine ⟨leftRun.trans rightRun.symm, ?_, ?_, ?_⟩
  · rw [leftRun]
    exact valid_replace valid.1.1 isMaking stays valid.2.toMade
  · rw [leftRun]
    exact Advances.trans (Advances.weaken leads) advances
  · rw [leftRun]
    cases result with
    | ok value => exact ⟨reached, draft, rfl, isMaking.within, advances, ended⟩
    | error error => exact ended

theorem Loading.agree_revise_drafted {left right : Revising Definition Unit}
    {post : Unit → Context × Definition → Prop}
    (attends : Attends frontEnd strict name id Extra)
    (valid : (Context.making frontEnd strict whole name generic id).Valid context)
    (agree : Agree ((evolving frontEnd strict none Extra).drafting
        (Drafted strict whole name generic (context.definition id)))
      (context, context.definition id) left right post) :
    Agree (Context.making frontEnd strict whole name generic id) context
      (Loading.revise id left) (Loading.revise id right) fun value reached =>
        ∃ before draft, reached = before.replace id draft ∧ id < before.arena.size ∧
          Advances frontEnd strict (some id) before reached ∧ post value (before, draft) :=
  agree_revise attends valid.2.2 valid.2.1 valid.1 (Drafting.agree_under agree (fun _ valid _ => valid)
    (fun _ _ leads => leads) (fun _ fails => fails) fun _ _ _ _ => Drafted.replaces)

/-- While the types are resolved to which type parameters conform, other definitions may be
loaded. -/
theorem Loading.agree_revise_conforming {left right : Revising Definition Unit}
    {post : Unit → Context × Definition → Prop}
    (attends : Attends frontEnd strict name id Extra) (extra : Extra context)
    (valid : (Context.making frontEnd strict whole name generic id).Valid context)
    (named : (context.definition id).name = name)
    (agree : Agree ((evolving frontEnd strict none Extra).drafting
        fun _ draft => (context.definition id).Conforms draft)
      (context, context.definition id) left right post) :
    Agree (Context.making frontEnd strict whole name generic id) context
      (Loading.revise id left) (Loading.revise id right)
      fun value reached => (context.definition id).Conforms (reached.definition id) ∧
        ∃ before draft, reached = before.replace id draft ∧ reached.definition id = draft ∧
          post value (before, draft) := by
  obtain ⟨sound, making, made⟩ := valid
  have kept := agree.mono fun value pair
    (valid : _ ∧ (context.definition id).Conforms pair.2) _ holds => And.intro valid.2 holds
  refine (agree_revise_drafted attends ⟨sound, making, made⟩ (Drafting.agree_under kept
    (fun _ valid _ => valid) (fun _ _ leads => leads) (fun _ fails => fails) ?_)).mono ?_
  · intro reached draft validReached leads conforms
    exact (Drafted.lasting ⟨sound, extra⟩ validReached leads (made.drafted named)).conforms
      conforms
  · rintro value _ _ _ ⟨before, draft, rfl, within, -, conforms, holds⟩
    have stored := definition_replace before draft within
    exact ⟨stored.symm ▸ conforms, before, draft, rfl, stored, holds⟩

end Slots

end Adl
