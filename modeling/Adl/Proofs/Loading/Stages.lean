import Adl.Loading.Pipeline
import Adl.Proofs.Loading.Composition

namespace Adl

open Step Context

/-! Every stage keeps the definition that is made: its name, the links of its
sub-components and, once it is whole, that it is. -/

variable {strict whole : Prop} {name : String} {generic : Bool} {id : DefinitionId} {context : Context}
  {load twin : String → Loading DefinitionId} {frontEnd : FrontEnd}

theorem Diagnostic.isError_foldl_withLabel {α : Type} (others : List α)
    (label : Diagnostic → α → Diagnostic)
    (same : ∀ diagnostic other, (label diagnostic other).isError = diagnostic.isError)
    (diagnostic : Diagnostic) :
    (others.foldl label diagnostic).isError = diagnostic.isError := by
  induction others generalizing diagnostic with
  | nil => rfl
  | cons other rest induction => rw [List.foldl_cons, induction, same]

theorem LoadError.isGrave_fatal {diagnostic : Diagnostic} (isError : diagnostic.isError = true) :
    (LoadError.fatal diagnostic).IsGrave := by
  intro other equal
  cases equal
  exact isError

/-! ## Annotations -/

namespace AnnotationRegistry

variable {registry : AnnotationRegistry}

/-- After the check of its annotations a definition is checked, unless errors are reported. -/
theorem agree_checkDefinition (harmless : registry.IsHarmless)
    (making : Making name id context) :
    Agree (editing name id) context (registry.checkDefinition id) (registry.checkDefinition id)
      fun _ reached => reached.log.errors = [] → (reached.definition id).IsChecked := by
  refine .read rfl ?_
  split
  · rename_i annotated
    have named := making.names.named isAnnotated (fun _ => rfl) annotated
    refine (Loading.agree_revise_edited _ making named
      ((agree_checkAll harmless _ context).mono fun _ pair _ _ holds => holds)).mono ?_
    rintro _ _ _ _ ⟨before, _, -, ⟨rfl, whole⟩, rfl, stored⟩ silent
    rw [stored]
    exact .mapAnnotations ((whole silent).mono fun _ _ whole => ⟨whole, .inr rfl⟩)
  · rename_i plain
    refine .pure making fun _ => (everywhere_of_not_annotated (by simpa using plain)).mono ?_
    exact fun target annotations none => ⟨by rw [Annotations.rebuilt, none]; rfl, .inl none⟩

theorem agree_processStored (harmless : registry.IsHarmless) (phase : Phase)
    (making : Making name id context) :
    Agree (editing name id) context (registry.processStored phase id)
      (registry.processStored phase id) fun _ _ => True := by
  refine .read rfl ?_
  split
  · rename_i due
    have named := making.names.named (isDue phase) (fun _ => rfl) due
    exact (Loading.agree_replace_edited (fun _ _ => True) making named
      ((agree_processDefinition harmless (.refl _)).mono fun _ _ _ _ edits =>
        ⟨edits, trivial⟩)).forget
  · exact .pure making trivial

theorem agree_processStoredSubComponents (harmless : registry.IsHarmless)
    (making : Making name id context) :
    Agree (editing name id) context (registry.processStoredSubComponents id)
      (registry.processStoredSubComponents id) fun _ _ => True := by
  refine .read rfl (.read rfl ?_)
  split
  · exact .pure making trivial
  · rename_i indices present
    have named := making.names.named
      (fun definition => !(dueComponents .onSubComponent context definition).isEmpty)
      (fun _ => rfl) (by simpa using present)
    exact (Loading.agree_replace_edited (fun _ _ => True) making named
      ((agree_processSubComponents harmless _ (.refl _)).mono fun _ _ _ _ edits =>
        ⟨edits, trivial⟩)).forget

end AnnotationRegistry

/-! ## The membrane -/

namespace Definition

theorem isComposite_blank (extendsMerged : Bool) : (blank extendsMerged).isComposite = false := by
  change (DefinitionKind.ofCapabilities .empty == .composite) = false
  decide

end Definition

/-- A composite comes to have the internal interfaces for what is delegated. -/
theorem agree_delegateInterfaces (making : Making name id context) :
    Agree (editing name id) context (delegateInterfaces id) (delegateInterfaces id)
      fun _ reached => reached.definition id = context.definition id ∧
          ((context.definition id).isComposite = true →
            (context.definition id).delegatedInterfaces = []) ∨
        (context.definition id).withDelegator (context.definition id).delegatedInterfaces =
          .ok (reached.definition id) := by
  refine .read rfl ?_
  split
  · rename_i composite
    have named := making.names.named Definition.isComposite
      (fun _ => Definition.isComposite_blank _) composite
    split
    · rename_i nothing
      exact .pure making (.inl ⟨rfl, fun _ => nothing⟩)
    · rename_i delegated _
      refine (Loading.agree_replace_edited (fun changed _ =>
        (context.definition id).withDelegator (context.definition id).delegatedInterfaces =
          .ok changed) making named ?_).mono ?_
      · cases outcome : (context.definition id).withDelegator
          (context.definition id).delegatedInterfaces with
        | ok changed => exact .pure trivial ⟨Definition.withDelegator_edits outcome, rfl⟩
        | error conflict => exact .fail trivial (LoadError.isGrave_internal _)
      · rintro _ reached _ _ ⟨before, changed, -, made, -, rfl⟩
        exact .inr made
  · rename_i simple
    exact .pure making (.inl ⟨rfl, fun composite => absurd composite simple⟩)

/-- What the check of a membrane finds first. -/
def Definition.membraneProblem? (definition : Definition) : Option Diagnostic :=
  definition.unknownInterface?.or (definition.unusedInternal?.or definition.unimplemented?)

theorem Definition.isError_membraneProblem {definition : Definition} {diagnostic : Diagnostic}
    (found : definition.membraneProblem? = some diagnostic) : diagnostic.isError = true := by
  rcases Option.or_eq_some_iff.mp found with unknown | ⟨-, found⟩
  · obtain ⟨controller, -, reported⟩ := List.exists_of_findSome?_eq_some unknown
    obtain ⟨interface, -, rfl⟩ := Option.map_eq_some_iff.mp reported
    rfl
  · rcases Option.or_eq_some_iff.mp found with unused | ⟨-, unimplemented⟩
    · unfold Definition.unusedInternal? at unused
      dsimp only at unused
      split at unused
      · cases unused
      · cases unused
        refine (Diagnostic.isError_foldl_withLabel _ _ ?_ _).trans rfl
        exact fun _ _ => rfl
    · unfold Definition.unimplemented? at unimplemented
      split at unimplemented <;> cases unimplemented
      rfl

theorem agree_completeMembrane (making : Making name id context) :
    Agree (editing name id) context (completeMembrane id) (completeMembrane id)
      fun _ reached => (context.definition id).membraneProblem? = none ∧
        reached.definition id = (context.definition id).componentInterfaceFirst := by
  refine .read rfl ?_
  split
  · rename_i diagnostic found
    exact .fail making (LoadError.isGrave_fatal (Definition.isError_membraneProblem found))
  · rename_i complete
    have edits := (context.definition id).componentInterfaceFirst_edits
    have stored := definition_replace context (context.definition id).componentInterfaceFirst
      making.within
    rcases making.names with named | ⟨stops, extendsMerged, blank⟩
    · exact .run rfl (making.replace (.inl (edits.keeps.name.trans named)))
        (.replace named edits) ⟨complete, stored⟩
    · have same : (context.definition id).componentInterfaceFirst = context.definition id := by
        rw [blank]
        rfl
      have unchanged : Loading.replace id (context.definition id).componentInterfaceFirst context =
          (.ok (), context) := by
        rw [same]
        exact congrArg (Prod.mk _) (replace_definition context id)
      exact .run unchanged making (.refl context) ⟨complete, same.symm⟩

/-! ## Bindings -/

theorem Binding.isError_duplicateReport (binding : Binding) (first : Span) :
    (binding.duplicateReport first).isError = true :=
  rfl

/-- The first bindings, after those that came before. Where no error is recorded these are all. -/
theorem Binding.agree_keepFirst {table : Table Span} (seen : List Binding)
    (finds : FindsFirsts table seen) (bindings : List Binding) :
    Agree reporting context (Binding.keepFirst table bindings)
      (Binding.keepFirst table bindings) fun kept reached =>
        firsts (seen ++ bindings) = firsts seen ++ kept ∧ (reached.log.errors = [] →
          kept = bindings ∧ (bindings.map (·.id)).Nodup ∧
            ∀ binding ∈ bindings, table.find? binding.id = none) := by
  -- Over what is left, whatever was seen before: it moves one binding at a time to what was seen.
  induction bindings generalizing table seen context with
  | nil =>
      exact .pure trivial ⟨(congrArg firsts (List.append_nil seen)).trans (List.append_nil _).symm,
        fun _ => ⟨rfl, .nil, nofun⟩⟩
  | cons binding rest induction =>
      unfold Binding.keepFirst
      rw [finds binding.id, List.append_cons]
      cases found : seen.find? (·.id == binding.id) with
      | some first =>
          have same := List.find?_some found
          have known : seen.any (·.id == binding.id) = true :=
            List.any_eq_true.mpr ⟨first, List.mem_of_find?_eq_some found, same⟩
          refine .bind (Loading.agree_record _) fun _ reached _ _ recorded =>
            (induction _ (finds.of_known found)).mono ?_
          refine fun kept last _ reports ⟨keeps, _⟩ => ⟨?_, fun silent => ?_⟩
          · rw [keeps, firsts_concat, if_pos known, List.append_nil]
          · exact absurd (reports.evolves.errors_eq_nil silent)
              (recorded (binding.isError_duplicateReport _))
      | none =>
          have isNew : ¬seen.any (·.id == binding.id) = true := by
            simpa using found
          refine .bind (induction _ (finds.of_new found)) ?_
          rintro kept reached _ _ ⟨keeps, distinct⟩
          refine .pure trivial ⟨?_, fun silent => ?_⟩
          · rw [keeps, firsts_concat, if_neg isNew]
            exact List.append_assoc ..
          · obtain ⟨rfl, nodup, unknown⟩ := distinct silent
            have apart : ∀ other ∈ kept, binding.id ≠ other.id ∧ table.find? other.id = none := by
              intro other member
              have absent := unknown other member
              rw [Table.find?_insert] at absent
              split at absent
              · exact nomatch absent
              · rename_i different
                exact ⟨different, absent⟩
            have isFirst : table.find? binding.id = none := by
              rw [finds, found]
              rfl
            refine ⟨rfl, List.nodup_cons.mpr ⟨fun member => ?_, nodup⟩,
              List.forall_mem_cons.mpr ⟨isFirst, fun other member => (apart other member).2⟩⟩
            obtain ⟨other, among, same⟩ := List.mem_map.mp member
            exact (apart other among).1 same.symm

/-- A binding that stands for others differs from them at its ends only. -/
theorem Definition.rewrites_of_mem_expandedBindings {definition : Definition}
    {binding : Binding} (member : binding ∈ definition.expandedBindings context) :
    ∃ original ∈ definition.bindings, binding.Rewrites original := by
  obtain ⟨original, among, expanded⟩ := List.mem_flatMap.mp member
  refine ⟨original, among, ?_⟩
  unfold Definition.expandBinding at expanded
  split at expanded
  · obtain ⟨index, -, rfl⟩ := List.mem_map.mp expanded
    exact ⟨rfl, ⟨some index, rfl⟩, ⟨some index, rfl⟩⟩
  · rw [List.mem_singleton.mp expanded]
    exact .refl original

/-- The bindings between whole collections were expanded, and no client is bound twice. -/
structure Definition.Normalizes (definition : Definition) (context : Context)
    (normalized : Definition) : Prop where
  bindings : normalized = { definition with bindings := definition.expandedBindings context }
  distinct : (normalized.bindings.map (·.id)).Nodup

theorem agree_normalizeBindings (definition : Definition) :
    Agree (reporting.drafting fun _ draft => definition.Edits draft) (context, definition)
      normalizeBindings normalizeBindings
      fun _ pair => pair.1.log.errors = [] → definition.Normalizes context pair.2 := by
  refine .read rfl (.read rfl ?_)
  refine Drafting.agree_lift_bind (Discipline.lasting_const reporting
    fun (draft : Definition) => definition.Edits draft) trivial (.refl _)
      (Binding.agree_keepFirst [] (fun _ => rfl) _) ?_
  rintro bindings reached _ _ _ ⟨isFirsts, distinct⟩
  obtain rfl : Binding.firsts (definition.expandedBindings context) = bindings := isFirsts
  refine Drafting.agree_modifyDraft trivial (.of_edit (.rebound definition
    (fun binding member => Definition.rewrites_of_mem_expandedBindings
      ((Binding.firsts_sublist _).mem member)) (.normalized definition context))) fun silent => ?_
  obtain ⟨same, nodup, -⟩ := distinct silent
  rw [same]
  exact ⟨rfl, nodup⟩

/-- A binding was checked in its definition. -/
def Binding.Checks (extends? : String → String → Bool) (definition : Definition)
    (context : Context) (binding settled : Binding) : Prop :=
  ∃ castRequired, binding.check definition context extends? = .ok castRequired ∧
    settled = { binding with castRequired }

theorem areErrors_of_check {extends? : String → String → Bool} {definition : Definition}
    {binding : Binding} {diagnostics : List Diagnostic}
    (refused : binding.check definition context extends? = .error diagnostics) :
    AreErrors diagnostics ∧ diagnostics ≠ [] := by
  have lookupError : ∀ {endpoint : Endpoint} {diagnostic : Diagnostic},
      binding.lookup definition context endpoint = .error diagnostic →
        diagnostic.isError = true := by
    intro endpoint diagnostic fails
    unfold Binding.lookup at fails
    split at fails <;> cases fails <;> rfl
  unfold Binding.check at refused
  split at refused
  · rename_i first second
    cases refused
    refine ⟨?_, List.cons_ne_nil _ _⟩
    rw [AreErrors, List.forall_mem_cons, List.forall_mem_singleton]
    exact ⟨lookupError first, lookupError second⟩
  · rename_i fails _
    cases refused
    exact ⟨areErrors_singleton (lookupError fails), List.cons_ne_nil _ _⟩
  · rename_i fails
    cases refused
    exact ⟨areErrors_singleton (lookupError fails), List.cons_ne_nil _ _⟩
  · unfold Compatibility.check at refused
    split at refused
    · cases refused
    · rename_i found
      cases refused
      refine ⟨fun diagnostic member => ?_, fun empty => found (List.map_eq_nil_iff.mp empty)⟩
      obtain ⟨problem, -, rfl⟩ := List.mem_map.mp member
      rfl
  · cases refused

theorem Definition.edit_of_checked {definition : Definition} {bindings : List Binding}
    (checked : List.Forall₂ (fun binding checked => ∃ castRequired : Bool,
      checked = { binding with castRequired }) definition.bindings bindings) :
    definition.Edit { definition with bindings } := by
  refine .rebound definition (fun binding member => ?_) (.settled (checked.imp ?_))
  · obtain ⟨original, among, _, rfl⟩ := exists_left_of_forall₂ checked binding member
    exact ⟨original, among, rfl, ⟨_, rfl⟩, ⟨_, rfl⟩⟩
  · rintro binding _ ⟨_, rfl⟩
    exact ⟨rfl, rfl, rfl, rfl⟩

theorem agree_checkBindings (extends? : String → String → Bool) (definition : Definition) :
    Agree (reporting.drafting fun _ draft => definition.Edits draft) (context, definition)
      (checkBindings extends?) (checkBindings extends?)
      fun _ pair => pair.1.log.errors = [] → ∃ bindings,
        pair.2 = { definition with bindings } ∧
          List.Forall₂ (Binding.Checks extends? definition context) definition.bindings
            bindings := by
  have lasting : ∀ (binding : Binding) (_ : Unit), reporting.Lasting
      fun (reached : Context) (settled : Binding) => reached.log.errors = [] →
        binding.Checks extends? definition context settled :=
    fun _ _ _ _ _ _ _ reports checks silent => checks (reports.evolves.errors_eq_nil silent)
  refine .read rfl (.read rfl ?_)
  refine .bind (Drafting.agree_onPart
    (Drafting.agree_each
      (fun binding => Discipline.lasting_const reporting fun (settled : Binding) =>
        ∃ castRequired, settled = { binding with castRequired })
      lasting trivial (fun binding _ => ⟨binding.castRequired, rfl⟩) fun _ later binding _ _ _ => ?_)
    fun _ _ _ _ checked => .of_edit (Definition.edit_of_checked checked)) ?_
  · refine .read rfl ?_
    unfold settleBinding
    split
    · rename_i castRequired accepted
      exact Drafting.agree_modifyDraft trivial ⟨castRequired, rfl⟩
        fun _ => ⟨castRequired, accepted, rfl⟩
    · rename_i diagnostics refused
      obtain ⟨errors, present⟩ := areErrors_of_check refused
      refine (Drafting.agree_lift (Discipline.lasting_const reporting fun (settled : Binding) =>
        ∃ castRequired, settled = { binding with castRequired }) trivial ⟨binding.castRequired, rfl⟩
        (Loading.agree_recordErrors errors present)).mono ?_
      rintro _ ⟨reached, _⟩ _ _ ⟨rfl, recorded⟩ silent
      exact absurd silent recorded
  · rintro _ ⟨reached, draft⟩ valid _ ⟨bindings, rfl, -, visited⟩
    exact .pure valid fun silent => ⟨bindings, rfl, visited.items.imp fun _ _ checks => checks silent⟩

/-- A revision of the bindings, where there are any. -/
theorem agree_onBindings {revision : Revising Definition Unit}
    {post : Context × Definition → Prop} (making : Making name id context)
    (agree : Agree (reporting.drafting fun _ draft => (context.definition id).Edits draft)
      (context, context.definition id) revision revision fun _ pair => post pair) :
    Agree (editing name id) context
      (do if !(← Loading.definition id).bindings.isEmpty then Loading.revise id revision)
      (do if !(← Loading.definition id).bindings.isEmpty then Loading.revise id revision)
      fun _ reached => reached = context ∧ (context.definition id).bindings = [] ∨
        ∃ before, Reports context before ∧ post (before, reached.definition id) ∧
          reached.log = before.log := by
  refine .read rfl ?_
  split
  · rename_i present
    have named := making.names.named (fun definition => !definition.bindings.isEmpty)
      (fun _ => rfl) present
    refine (Loading.agree_revise_edited _ making named agree).mono ?_
    rintro _ _ _ _ ⟨before, changed, reports, holds, rfl, stored⟩
    exact .inr ⟨before, reports, stored.symm ▸ holds, rfl⟩
  · rename_i absent
    exact .pure making (.inl ⟨rfl, by simpa using absent⟩)

/-- A concrete composite leaves no mandatory client unbound. -/
theorem agree_requireBound (making : Making name id context) :
    Agree (editing name id) context (requireBound name id) (requireBound name id)
      fun _ reached => reached = context ∧ ((context.definition id).isComposite = true →
        (context.definition id).isAbstract = false →
          (context.definition id).unbound context = []) := by
  refine .read rfl ?_
  split
  · refine .read rfl ?_
    split
    · rename_i covered
      exact .pure making ⟨rfl, fun _ _ => covered⟩
    · refine .fail making (LoadError.isGrave_fatal ?_)
      refine (Diagnostic.isError_foldl_withLabel _ _ ?_ _).trans rfl
      exact fun _ _ => rfl
  · rename_i exempt
    refine .pure making ⟨rfl, fun composite concrete => absurd ?_ exempt⟩
    rw [composite, concrete]
    rfl

/-! ## The stages together -/

namespace SubComponents

/-- What a sub-component became is told by its decoration and by what this started from. -/
theorem Follows.of_same {owner : DefinitionId} {ownerName : String}
    {component original resolved changed : Component}
    (outline : component.outline = original.outline) (link : component.link = original.link)
    (outlineAfter : changed.outline = resolved.outline) (linkAfter : changed.link = resolved.link)
    (follows : Follows strict owner ownerName component resolved context) :
    Follows strict owner ownerName original changed context := by
  obtain ⟨name, typeParameter, start⟩ := Prod.mk.inj outline |>.imp_right Prod.mk.inj
  obtain ⟨nameAfter, typeParameterAfter, -⟩ := Prod.mk.inj outlineAfter |>.imp_right Prod.mk.inj
  obtain ⟨decoration, named⟩ := Prod.mk.inj link
  obtain ⟨decorationAfter, namedAfter⟩ := Prod.mk.inj linkAfter
  refine ⟨?_, ?_, ?_, ?_, ?_⟩
  · rw [nameAfter, follows.name, name]
  · rw [typeParameterAfter, follows.typeParameter, typeParameter]
  · rw [namedAfter, follows.named, named]
  · intro isStrict decorated
    rw [decorationAfter, ← decoration]
    refine follows.kept isStrict ?_
    rw [named, decoration]
    exact decorated
  · intro unresolved reference isDefinition target isTarget
    have undecorated := decoration.trans unresolved
    rw [undecorated, unresolved] at start
    refine follows.found undecorated reference (start.trans isDefinition) target ?_
    rwa [Component.resolvedId?, ← decorationAfter]

end SubComponents

namespace Definition

/-- The sub-components of definitions that keep each other match. -/
theorem Keeps.components {changed original : Definition} (keeps : changed.Keeps original) :
    List.Forall₂ (fun component other =>
      component.outline = other.outline ∧ component.link = other.link)
      changed.components original.components := by
  have links := keeps.links
  have outlines := keeps.outlines
  rw [Definition.links, Definition.links] at links
  rw [Definition.outlines, Definition.outlines] at outlines
  generalize changed.components = components at links outlines
  generalize original.components = others at links outlines
  induction components generalizing others with
  | nil =>
      cases others with
      | nil => exact .nil
      | cons other rest => cases links
  | cons component components induction =>
      cases others with
      | nil => cases links
      | cons other rest =>
          obtain ⟨link, links⟩ := List.cons.inj links
          obtain ⟨outline, outlines⟩ := List.cons.inj outlines
          exact .cons ⟨outline, link⟩ (induction rest links outlines)

end Definition

namespace SubComponents.Completed

/-- Sub-components stay completed while later stages keep them. -/
theorem keeps {original : Definition} {before after : Context}
    (sound : before.Sound strict) (evolves : Evolves (some id) before after)
    (keeps : (after.definition id).Keeps (before.definition id))
    (completed : Completed strict original id before) : Completed strict original id after where
  typeParameters := keeps.typeParameters.trans completed.typeParameters
  extendsMerged := keeps.extendsMerged.trans completed.extendsMerged
  components :=
    forall₂_through completed.components keeps.components.flip fun _ _ _ follows same =>
      (follows.lasts sound evolves).of_same rfl rfl same.1 same.2

/-- What earlier stages keep they complete for the original. -/
theorem ofKeeps {original made : Definition} (keeps : made.Keeps original)
    (completed : Completed strict made id context) : Completed strict original id context where
  typeParameters := completed.typeParameters.trans keeps.typeParameters
  extendsMerged := completed.extendsMerged.trans keeps.extendsMerged
  components :=
    forall₂_through keeps.components.flip (keeps.name ▸ completed.components)
      fun _ _ _ same follows => follows.of_same same.1 same.2 rfl rfl

end SubComponents.Completed

/-- A definition whose parents are merged grew from what the check of its annotations left. -/
theorem Parents.Merges.grewFrom {reached earlier : Context}
    (merges : Parents.Merges strict id context reached)
    (sound : context.Sound strict) (making : Making name id context)
    (leads : Advances frontEnd strict (some id) context reached)
    (errors : earlier.log.errors <+: context.log.errors)
    (checked : context.log.errors = [] → (earlier.definition id).IsChecked)
    (apart : context.log.errors = [] → (context.definition id).NamesApart ∧
      Definition.Grows strict context (earlier.definition id) (context.definition id)) :
    reached.GrewFrom strict earlier id := by
  have silentContext := Evolves.errors_eq_nil leads.toEvolves
  refine ⟨errors.trans leads.errors, fun silent => checked (silentContext silent),
    fun silent => ?_, merges.merged⟩
  obtain ⟨namesApart, grewBefore⟩ := apart (silentContext silent)
  refine ⟨_, namesApart, grewBefore.lasts fun other loaded => ?_, merges.grows silent⟩
  exact ⟨loaded.lasts leads.toEvolves, sound.definition_of_loaded leads.toEvolves
    (fun own => making.ne_of_loaded loaded (Option.some.inj own)) loaded⟩

/-- What the stages have made of a definition. -/
structure Context.Finished (strict : Prop) (original : Definition) (id : DefinitionId)
    (context : Context) : Prop where
  complete : strict → context.Complete (context.definition id).links
  merged : (context.definition id).decorations.extendsMerged = true
  completed : original.decorations.extendsMerged = true →
    SubComponents.Completed strict original id context
  declares : context.log.errors = [] → original.DeclaresPlaceholders
  once : context.log.errors = [] → (context.definition id).typeParameterNames.Nodup

namespace Stage

/-- The stages that load something. -/
def loading : List Stage :=
  [.typeParameters, .subComponents, .parents]

theorem agree_runEditing (harmless : frontEnd.registry.IsHarmless) {stage : Stage}
    (others : stage ∉ loading) (making : Making name id context) :
    Agree (editing name id) context (stage.run frontEnd load name id)
      (stage.run frontEnd twin name id) fun _ _ => True := by
  cases stage with
  | annotations => exact (AnnotationRegistry.agree_checkDefinition harmless making).forget
  | process phase => exact AnnotationRegistry.agree_processStored harmless phase making
  | typeParameters => exact absurd (by decide) others
  | subComponents => exact absurd (by decide) others
  | parents => exact absurd (by decide) others
  | subComponentAnnotations =>
      exact AnnotationRegistry.agree_processStoredSubComponents harmless making
  | interfaces => exact (agree_checkInterfaces making).forget
  | delegation => exact (agree_delegateInterfaces making).forget
  | membrane => exact (agree_completeMembrane making).forget
  | expandBindings => exact (agree_onBindings making (agree_normalizeBindings _)).forget
  | checkBindings => exact (agree_onBindings making (agree_checkBindings _ _)).forget
  | coverage => exact (agree_requireBound making).forget
  | parameters => exact (agree_checkParameters making).forget
  | attributes => exact (agree_settleAttributes making).forget

theorem all_eq :
    all = .annotations :: .process .afterParsing :: .typeParameters :: .subComponents :: .parents ::
      afterParents :=
  rfl

/-- The other stages edit what is made. -/
theorem agree_runOthers (harmless : frontEnd.registry.IsHarmless) {stages : List Stage}
    (others : ∀ stage ∈ stages, stage ∉ loading) (making : Making name id context) :
    Agree (editing name id) context (stages.forM (run frontEnd load name id))
      (stages.forM (run frontEnd twin name id)) fun _ _ => True :=
  .forM (fun _ => True) making trivial fun stage member _ making _ =>
    agree_runEditing harmless (others stage member) making

theorem edited_of_runOthers (harmless : frontEnd.registry.IsHarmless) {stages : List Stage}
    (others : ∀ stage ∈ stages, stage ∉ loading) (making : Making name id context)
    {reached : Context} (ran : stages.forM (run frontEnd load name id) context = (.ok (), reached)) :
    Making name id reached ∧ EditedAt name id context reached := by
  have agree : Agree (editing name id) context (stages.forM (run frontEnd load name id))
      (stages.forM (run frontEnd load name id)) fun _ _ => True :=
    agree_runOthers harmless others making
  exact ⟨(agree.of_ok ran).1, (agree.of_ok ran).2.1⟩

/-- The last stages came to a context, on a way from another one, where the definition grew from
what the check of its annotations left. -/
def Closes (frontEnd : FrontEnd) (strict : Prop) (load : String → Loading DefinitionId)
    (name : String) (id : DefinitionId) (start reached : Context) : Prop :=
  ∃ earlier middle, Path frontEnd strict start earlier ∧ Path frontEnd strict start middle ∧
    Making name id middle ∧ middle.GrewFrom strict earlier id ∧
    afterParents.forM (run frontEnd load name id) middle = (.ok (), reached)

/-- Stages that load by `twin`. They may merge parents in their own way, as long as this comes to
the same. -/
structure Mirrors (frontEnd : FrontEnd) (strict : Prop) (name : String) (generic : Bool)
    (id : DefinitionId) (Extra : Context → Prop) (load twin : String → Loading DefinitionId)
    (other : Stage → Loading Unit) : Prop where
  same : ∀ stage, stage ≠ .parents → other stage = stage.run frontEnd twin name id
  merges : ∀ context, Extra context → (making frontEnd strict True name generic id).Valid context →
    Agree (making frontEnd strict True name generic id) context
      (Stage.parents.run frontEnd load name id) (other .parents)
      fun _ => Parents.Merges strict id context

theorem Mirrors.forM {other : Stage → Loading Unit}
    (mirrors : Mirrors frontEnd strict name generic id Extra load twin other) {stages : List Stage}
    (others : .parents ∉ stages) : stages.forM other = stages.forM (run frontEnd twin name id) := by
  induction stages with
  | nil => rfl
  | cons stage rest induction =>
      obtain ⟨first, rest⟩ := not_or.mp (fun member => others (List.mem_cons.mpr member))
      change (other stage >>= fun _ => _) = (stage.run frontEnd twin name id >>= fun _ => _)
      rw [mirrors.same stage (Ne.symm first), induction rest]

theorem mirrors_run (harmless : frontEnd.registry.IsHarmless)
    (attends : Attends frontEnd strict name id Extra)
    (loads : Loads frontEnd strict Extra load twin) :
    Mirrors frontEnd strict name generic id Extra load twin (run frontEnd twin name id) where
  same _ _ := rfl
  merges _ extra valid := Parents.agree_merge harmless attends loads extra valid

/-- The stages that follow the resolution of the sub-components. -/
theorem agree_runAfterSubComponents (harmless : frontEnd.registry.IsHarmless)
    {other : Stage → Loading Unit}
    (mirrors : Mirrors frontEnd strict name generic id Extra load twin other)
    (extra : Extra context) {original : Definition}
    (completed : SubComponents.Completed strict original id context)
    {earlier : Context} (errors : earlier.log.errors <+: context.log.errors)
    (checked : context.log.errors = [] → (earlier.definition id).IsChecked)
    (apart : context.log.errors = [] → (context.definition id).NamesApart ∧
      Definition.Grows strict context (earlier.definition id) (context.definition id))
    (valid : (making frontEnd strict True name generic id).Valid context) :
    Agree (making frontEnd strict True name generic id) context
      ((Stage.parents :: afterParents).forM (run frontEnd load name id))
      ((Stage.parents :: afterParents).forM other)
      fun _ reached => (reached.definition id).decorations.extendsMerged = true ∧
        (original.decorations.extendsMerged = true →
          SubComponents.Completed strict original id reached) ∧
        (reached.log.errors = [] → (reached.definition id).typeParameterNames =
          (context.definition id).typeParameterNames) ∧
        ∃ middle, Path frontEnd strict context middle ∧ Making name id middle ∧
          middle.GrewFrom strict earlier id ∧
          afterParents.forM (run frontEnd load name id) middle = (.ok (), reached) := by
  refine .bind (mirrors.merges context extra valid) ?_
  rintro _ reached validReached leads ⟨merged, kept, grows⟩
  have others : ∀ stage ∈ afterParents, stage ∉ loading := by decide
  have last : afterParents.forM other = afterParents.forM (run frontEnd twin name id) := by
    exact mirrors.forM (by decide)
  have grew := Parents.Merges.grewFrom ⟨merged, kept, grows⟩ valid.1 valid.2.1 leads errors checked apart
  rw [last]
  refine ((Agree.making validReached (agree_runOthers harmless others validReached.2.1)).ran
    (fun _ last => (reached.definition id).Edits (last.definition id) ∧
      afterParents.forM (run frontEnd load name id) reached = (.ok (), last)) ?_).mono ?_
  · rintro ⟨⟩ last run ⟨-, edits⟩
    exact ⟨edits, run⟩
  · rintro _ last _ leadsLast ⟨edits, run⟩
    have keeps := edits.keeps
    refine ⟨keeps.extendsMerged.trans merged, fun originally => ?_, fun silent => ?_,
      reached, Advances.path leads, validReached.2.1, grew, run⟩
    · have keepsFirst := kept (completed.extendsMerged.trans originally)
      exact (completed.keeps valid.1 leads.toEvolves keepsFirst).keeps validReached.1
        leadsLast.toEvolves keeps
    · have grew := grows (Evolves.errors_eq_nil leadsLast.toEvolves silent)
      exact keeps.typeParameters.trans grew.typeParameterNames

/-- After all stages the definition is finished. The parents may be merged in another way. -/
theorem agree_runAll (harmless : frontEnd.registry.IsHarmless)
    (attends : Attends frontEnd strict name id Extra) (loads : Loads frontEnd strict Extra load twin)
    {other : Stage → Loading Unit}
    (mirrors : Mirrors frontEnd strict name generic id Extra load twin other)
    (extra : Extra context) (valid : (making frontEnd strict False name generic id).Valid context) :
    Agree (making frontEnd strict False name generic id) context
      (all.forM (run frontEnd load name id)) (all.forM other)
      fun _ reached => reached.Finished strict (context.definition id) id ∧
        Closes frontEnd strict load name id context reached := by
  have first : all.forM other = (do
      Stage.annotations.run frontEnd twin name id
      (Stage.process .afterParsing).run frontEnd twin name id
      Stage.typeParameters.run frontEnd twin name id
      Stage.subComponents.run frontEnd twin name id
      (Stage.parents :: afterParents).forM other) := by
    simp only [← mirrors.same _ (by decide : Stage.annotations ≠ .parents),
      ← mirrors.same _ (by decide : Stage.process .afterParsing ≠ .parents),
      ← mirrors.same _ (by decide : Stage.typeParameters ≠ .parents),
      ← mirrors.same _ (by decide : Stage.subComponents ≠ .parents)]
    rfl
  rw [first, all_eq]
  refine .bind (Agree.making valid
    (AnnotationRegistry.agree_checkDefinition harmless valid.2.1)) ?_
  rintro _ earlier validEarlier leadsEarlier ⟨isChecked, editsEarlier⟩
  refine .bind (Agree.making validEarlier
    (AnnotationRegistry.agree_processStored harmless .afterParsing validEarlier.2.1)) ?_
  rintro _ first validFirst leadsFirst ⟨-, edits⟩
  have extraFirst : Extra first :=
    attends.follows validFirst.2.1 (Advances.trans leadsEarlier leadsFirst) extra
  refine .bind (TypeParameters.agree_check harmless attends loads extraFirst validFirst) ?_
  rintro _ reached valid leadsReached ⟨checked, declares⟩
  have extraReached : Extra reached := attends.follows valid.2.1 leadsReached extraFirst
  refine .bind (SubComponents.agree_resolveAll harmless attends loads extraReached valid) ?_
  rintro _ later ⟨sound, isMaking, made⟩ leads ⟨complete, completed, apart⟩
  have isWhole : (making frontEnd strict True name generic id).Valid later :=
    ⟨sound, isMaking, made.names, made.shape, made.linked, fun isStrict _ => complete isStrict⟩
  have leadsChecked := Advances.trans leadsFirst (Advances.trans leadsReached leads)
  have finished := agree_runAfterSubComponents harmless mirrors
    (attends.follows isMaking leads extraReached)
    (completed.ofKeeps (checked.keeps.trans (editsEarlier.trans edits).keeps)) leadsChecked.errors
    (fun silent => isChecked (Evolves.errors_eq_nil leadsChecked.toEvolves silent))
    (fun silent => ⟨(apart silent).1,
      ((Definition.Grows.of_edits edits).trans (.of_conforms checked)).trans (apart silent).2⟩)
    isWhole
  refine Agree.under (finished.mono ?_) ?_ (fun _ _ leads => leads) fun _ fails => fails
  · rintro _ last valid leadsLast ⟨merged, finished, names, middle, path, isMaking, grew, run⟩
    refine ⟨⟨fun isStrict => valid.2.2.complete isStrict trivial, merged, finished, ?_, ?_⟩, earlier,
      middle, leadsEarlier.path, ?_, isMaking, grew, run⟩
    · intro silent
      have later := Evolves.errors_eq_nil leadsLast.toEvolves silent
      exact (declares (Evolves.errors_eq_nil leads.toEvolves later)).1.keeps
        (editsEarlier.trans edits).keeps
    · intro silent
      have later := Evolves.errors_eq_nil leadsLast.toEvolves silent
      rw [names silent, completed.typeParameters, checked.keeps.typeParameters]
      exact (declares (Evolves.errors_eq_nil leads.toEvolves later)).2.1
    · exact (Advances.trans leadsEarlier leadsChecked).path.trans path
  · exact fun last valid _ => ⟨valid.1, valid.2.1, valid.2.2.names, valid.2.2.shape,
      valid.2.2.linked, fun _ => False.elim⟩

end Stage

end Adl
