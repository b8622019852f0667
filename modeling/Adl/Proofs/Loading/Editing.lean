import Adl.Proofs.Loading.Steps

namespace Adl

open Step

/-! Steps that load nothing: they edit the definition in the slot that is made, and report. -/

namespace Context

variable {frontEnd : FrontEnd} {strict whole : Prop} {name : String} {generic : Bool}
  {id : DefinitionId} {context before middle after : Context}

theorem replace_definition (context : Context) (id : DefinitionId) :
    context.replace id (context.definition id) = context := by
  have same : context.arena.setIfInBounds id (context.definition id) = context.arena := by
    refine Array.ext (Array.size_setIfInBounds ..) fun index _ within => ?_
    rw [Array.getElem_setIfInBounds within]
    split
    · rename_i equal
      cases equal
      simp [definition, within]
    · rfl
  simp only [replace, same]

theorem replace_replace (context : Context) (id : DefinitionId) (first second : Definition) :
    (context.replace id first).replace id second = context.replace id second := by
  simp [replace]

theorem Reports.replace (reports : Reports before after) (id : DefinitionId)
    (changed : Definition) : Reports (before.replace id changed) (after.replace id changed) :=
  { reports with arena := congrArg (Array.setIfInBounds · id changed) reports.arena }

/-- The definition in the slot was edited, unless it is what a stop has left. Besides there
were only reports. -/
def EditedAt (name : String) (id : DefinitionId) (before after : Context) : Prop :=
  ∃ changed, (before.definition id).Edits changed ∧
    (changed = before.definition id ∨ (before.definition id).name = name) ∧
    Reports (before.replace id changed) after

namespace EditedAt

theorem refl (context : Context) : EditedAt name id context context :=
  ⟨context.definition id, .refl _, .inl rfl, by
    rw [replace_definition]
    exact .refl context⟩

theorem of_reports (reports : Reports before after) : EditedAt name id before after :=
  ⟨before.definition id, .refl _, .inl rfl, by rwa [replace_definition]⟩

theorem replace (named : (before.definition id).name = name) {changed : Definition}
    (edits : (before.definition id).Edits changed) :
    EditedAt name id before (before.replace id changed) :=
  ⟨changed, edits, .inr named, .refl _⟩

theorem definition (edited : EditedAt name id before after) :
    (before.definition id).Edits (after.definition id) ∧
      (after.definition id = before.definition id ∨ (before.definition id).name = name) := by
  obtain ⟨changed, edits, origin, reports⟩ := edited
  rw [reports.definition]
  by_cases within : id < before.arena.size
  · rw [definition_replace before changed within]
    exact ⟨edits, origin⟩
  · rw [definition_replace_of_beyond before changed within]
    exact ⟨.refl _, .inl rfl⟩

theorem edits (edited : EditedAt name id before after) :
    (before.definition id).Edits (after.definition id) :=
  edited.definition.1

/-- Only the definition at the end matters. -/
theorem reports (edited : EditedAt name id before after) :
    Reports (before.replace id (after.definition id)) after := by
  obtain ⟨changed, -, -, reports⟩ := edited
  have same : before.replace id (after.definition id) = before.replace id changed := by
    rw [reports.definition, ← replace_replace before id changed, replace_definition]
  exact same ▸ reports

theorem silent (edited : EditedAt name id before after) (silent : after.log.errors = []) :
    before.log.errors = [] :=
  List.prefix_nil.mp (silent ▸ edited.reports.errors)

theorem definition_of_ne (edited : EditedAt name id before after) {other : DefinitionId}
    (different : id ≠ other) : after.definition other = before.definition other := by
  obtain ⟨changed, -, -, reports⟩ := edited
  rw [reports.definition, definition_replace_of_ne before changed different]

theorem trans (first : EditedAt name id before middle) (second : EditedAt name id middle after) :
    EditedAt name id before after := by
  obtain ⟨editsFirst, originFirst⟩ := first.definition
  obtain ⟨editsSecond, originSecond⟩ := second.definition
  refine ⟨after.definition id, editsFirst.trans editsSecond, ?_, ?_⟩
  · rcases originSecond with same | named
    · exact same ▸ originFirst
    · refine .inr (originFirst.elim (fun same => ?_) fun named => named)
      exact same ▸ named
  · have replaced := first.reports.replace id (after.definition id)
    rw [replace_replace] at replaced
    exact replaced.trans second.reports

end EditedAt

/-- Steps that edit the definition which is made for a name. -/
def editing (name : String) (id : DefinitionId) : Discipline Context where
  Valid := Making name id
  Leads := EditedAt name id
  Fails := LoadError.IsGrave
  refl := EditedAt.refl
  trans := EditedAt.trans

/-- What is edited stays as it has to be while it is made. -/
theorem EditedAt.valid (valid : (making frontEnd strict whole name generic id).Valid before)
    (edited : EditedAt name id before after) :
    (making frontEnd strict whole name generic id).Valid after ∧
      Advances frontEnd strict (some id) before after := by
  obtain ⟨sound, isMaking, made⟩ := valid
  obtain ⟨changed, edits, origin, reports⟩ := edited
  have replaces : Replaces strict whole name generic (before.definition id) before changed := by
    rcases origin with rfl | named
    · exact ⟨made, fun _ => .refl before _⟩
    · exact ((made.drafted named).edits edits).replaces
  have replaced : (Context.making frontEnd strict whole name generic id).Valid
      (before.replace id changed) := valid_replace sound isMaking made replaces.toMade
  obtain ⟨soundAfter, makingAfter, madeAfter⟩ := replaced
  refine ⟨⟨soundAfter.ofReports reports, makingAfter.lasts reports.evolves, ?_⟩,
    (replaces.advances isMaking made).trans (.ofReports reports)⟩
  rw [reports.definition]
  exact madeAfter.lasts soundAfter reports.evolves nofun

end Context

open Context

variable {α : Type} {frontEnd : FrontEnd} {strict whole : Prop} {name : String} {generic : Bool}
  {id : DefinitionId} {context : Context}

/-- Steps that edit what is made can be taken while it is. -/
theorem Step.Agree.making {left right : Loading α} {post : α → Context → Prop}
    (valid : (Context.making frontEnd strict whole name generic id).Valid context)
    (agree : Agree (editing name id) context left right post) :
    Agree (Context.making frontEnd strict whole name generic id) context left right
      fun value reached => post value reached ∧
        (context.definition id).Edits (reached.definition id) :=
  (agree.mono fun _ _ _ edited holds => And.intro holds edited.edits).under
    (fun _ _ edited => (edited.valid valid).1) (fun _ _ edited => (edited.valid valid).2)
    fun _ grave _ => grave

namespace Loading

/-- Reports do not touch what is made. -/
theorem agree_editing {step : Loading α} {post : α → Context → Prop}
    (making : Making name id context) (agree : Agree reporting context step step post) :
    Agree (editing name id) context step step post :=
  agree.under (fun _ _ reports => making.lasts reports.evolves)
    (fun _ _ reports => .of_reports reports) fun _ grave => grave

/-- An edited definition is stored. -/
theorem agree_replace_edited {step : Loading Definition} (post : Definition → Context → Prop)
    (making : Making name id context) (named : (context.definition id).name = name)
    (agree : Agree reporting context step step fun changed reached =>
      (context.definition id).Edits changed ∧ post changed reached) :
    Agree (editing name id) context (step >>= Loading.replace id) (step >>= Loading.replace id)
      fun _ reached => ∃ before changed, Reports context before ∧ post changed before ∧
        reached = before.replace id changed ∧ reached.definition id = changed := by
  refine .through (fun changed reached => Reports context reached ∧
    (context.definition id).Edits changed ∧ post changed reached)
    (agree_editing making (agree.mono fun _ _ _ reports holds => ⟨reports, holds⟩)) ?_
  rintro changed reached making - ⟨reports, edits, holds⟩
  have same := reports.definition id
  have stored := definition_replace reached changed making.within
  exact .run rfl (making.replace (.inl (edits.keeps.name.trans named)))
    (.replace (same ▸ named) (same ▸ edits)) ⟨reached, changed, reports, holds, rfl, stored⟩

/-- A revision that loads nothing. -/
theorem agree_revise_edited {revision : Revising Definition Unit}
    (post : Context × Definition → Prop)
    (making : Making name id context) (named : (context.definition id).name = name)
    (agree : Agree (reporting.drafting fun _ draft => (context.definition id).Edits draft)
      (context, context.definition id) revision revision fun _ pair => post pair) :
    Agree (editing name id) context (Loading.revise id revision) (Loading.revise id revision)
      fun _ reached => ∃ before changed, Reports context before ∧ post (before, changed) ∧
        reached = before.replace id changed ∧ reached.definition id = changed := by
  have valid := agree.valid
  have leads := agree.leads
  have ended := agree.ended
  rcases outcome : revision (context, context.definition id) with ⟨result, reached, draft⟩
  rw [outcome] at valid leads ended
  have run : Loading.revise id revision context = (result, reached.replace id draft) := by
    simp only [Loading.revise, outcome]
  have reports : Reports context reached := leads
  have edits : (context.definition id).Edits draft := valid.2
  have same := reports.definition id
  have makingReached := making.lasts reports.evolves
  have stored := definition_replace reached draft makingReached.within
  refine .ends run run (makingReached.replace (.inl (edits.keeps.name.trans named)))
    ((EditedAt.of_reports reports).trans (.replace (same ▸ named) (same ▸ edits))) ?_
  cases result with
  | error error => exact ended
  | ok value => exact ⟨reached, draft, reports, ended, rfl, stored⟩

end Loading

end Adl
