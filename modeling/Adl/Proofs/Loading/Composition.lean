import Adl.Loading.Composition
import Adl.Proofs.Loading.Declarations

namespace Adl

open Step Context Resolver

/-! What a definition is made from. Sub-components come to designate loaded definitions,
and what is taken over from parents does so already. -/

variable {strict whole : Prop} {name : String} {generic : Bool} {id : DefinitionId} {context : Context}
  {load twin : String → Loading DefinitionId} {frontEnd : FrontEnd} {Extra : Context → Prop}

/-! ## Sub-components -/

namespace SubComponents

/-- The decoration of a sub-component may be kept. -/
def IsLinked (strict : Prop) (context : Context) (component : Component) : Prop :=
  strict → ∀ resolved, component.resolved = some resolved → context.Designates resolved

/-- A sub-component has its decoration, unless errors were reported. -/
def IsSettled (strict : Prop) (context : Context) (component : Component) : Prop :=
  strict → component.definition.isSome = true →
    component.resolved.isSome = true ∨ context.log.errors ≠ []

/-- What a sub-component became of another when it was resolved for its owner: it keeps the
decoration that it had, and has what the reference was resolved to if it had none. -/
structure Follows (strict : Prop) (owner : DefinitionId) (ownerName : String)
    (component resolved : Component) (context : Context) : Prop where
  name : resolved.name = component.name
  typeParameter : resolved.typeParameter = component.typeParameter
  named : resolved.definition.isSome = component.definition.isSome
  kept : strict → (component.definition.isSome = true → component.resolved.isSome = true) →
    resolved.resolved = component.resolved
  found : component.resolved = none → ∀ reference, component.definition = some reference →
    ∀ id, resolved.resolvedId? = some id →
      IsFitting strict reference.clearResolution (some owner) id context ∧
        context.references.find? (ownerName ++ "|" ++ reference.clearResolution.text) = some id

theorem IsLinked.lasting : (evolving frontEnd strict none Extra).Lasting (IsLinked strict) :=
  fun _ _ _ before _ leads linked isStrict resolved found =>
    (linked isStrict resolved found).mono fun name _ loaded =>
      ⟨Evolves.find?_cache leads.toEvolves loaded,
        before.1.definition_of_loaded leads.toEvolves nofun ⟨name, loaded⟩⟩

/-- What a sub-component may be while it is resolved. -/
def MayBecome (strict : Prop) (component : Component) (context : Context) (draft : Component) :
    Prop :=
  IsLinked strict context draft ∧ component.Resolves draft

theorem MayBecome.lasting (component : Component) :
    (evolving frontEnd strict none Extra).Lasting (MayBecome strict component) :=
  fun _ _ _ before after leads may => ⟨IsLinked.lasting before after leads may.1, may.2⟩

theorem IsSettled.lasting : (evolving frontEnd strict none Extra).Lasting (IsSettled strict) :=
  fun _ _ _ _ _ leads settled isStrict named =>
    (settled isStrict named).imp_right leads.toEvolves.errors_ne_nil

theorem Follows.lasts {own : Option DefinitionId} {before after : Context} {owner : DefinitionId}
    {ownerName : String} {component resolved : Component} (sound : before.Sound strict)
    (evolves : Evolves own before after)
    (follows : Follows strict owner ownerName component resolved before) :
    Follows strict owner ownerName component resolved after :=
  { follows with
    found := fun unresolved reference isDefinition id isTarget =>
      have found := follows.found unresolved reference isDefinition id isTarget
      ⟨found.1.lasts sound evolves, evolves.references _ id found.2⟩ }

theorem Follows.lasting {owner : DefinitionId} {ownerName : String} {component : Component} :
    (evolving frontEnd strict none Extra).Lasting fun context resolved =>
      Follows strict owner ownerName component resolved context :=
  fun _ _ _ valid _ leads follows => follows.lasts valid.1 leads.toEvolves

/-- A decoration that holds designates what it designated. -/
theorem resolved?_eq_of_designates {resolved : Resolved}
    (designates : context.Designates resolved) : context.resolved? resolved = resolved.id := by
  obtain ⟨target, isTarget, loaded, -⟩ := designates
  simp only [Context.resolved?, isTarget, loaded, Option.filter_some]
  split <;> rfl

theorem designates_of_resolved? {resolved : Resolved} (designates : context.Designates resolved)
    (found : context.resolved? resolved = some id) :
    context.Designates ⟨resolved.name, some id⟩ := by
  rw [resolved?_eq_of_designates designates] at found
  exact found ▸ designates

theorem agree_accept (lasts : Lasts frontEnd strict Extra) (valid : (evolving frontEnd strict none Extra).Valid context)
    {original component draft : Component} (loaded : context.Loaded id)
    (may : MayBecome strict original context draft) :
    Agree ((evolving frontEnd strict none Extra).drafting (MayBecome strict original))
      (context, draft)
      (accept component id) (accept component id)
      fun _ pair => IsSettled strict pair.1 pair.2 ∧ Evolves none context pair.1 ∧
        ∃ resolved, pair.2 = { draft with resolved } ∧
          ∀ target, resolved.bind (·.id) = some target → target = id := by
  refine .read rfl ?_
  split
  · refine Drafting.agree_lift_bind (MayBecome.lasting original) valid may
      ((Loading.agree_recordError _ _ _).reported valid.1 valid.2 lasts) ?_
    intro _ reached valid leads _ recorded
    exact Drafting.agree_modifyDraft valid
      ⟨fun _ _ found => (nomatch found), may.2.decorate none⟩
      ⟨fun _ _ => .inr recorded, leads.toEvolves, none, rfl, fun _ found => nomatch found⟩
  · rename_i usable
    have admissible := not_or.mp (Bool.or_eq_true .. ▸ usable)
    refine Drafting.agree_modifyDraft valid ⟨?_, may.2.decorate _⟩
      ⟨fun _ _ => .inl rfl, .refl context, _, rfl, fun _ found => (Option.some.inj found).symm⟩
    intro _ resolved found
    cases found
    exact valid.1.designates loaded (Bool.eq_false_iff.mpr admissible.1)
      (Bool.eq_false_iff.mpr admissible.2)

theorem agree_resolve (lasts : Lasts frontEnd strict Extra) (loads : Loads frontEnd strict Extra load twin)
    (harmless : frontEnd.registry.IsHarmless) {owner : DefinitionId}
    (inScope : InScope strict (some owner) context)
    (valid : (evolving frontEnd strict none Extra).Valid context) {component : Component}
    (linked : IsLinked strict context component) :
    Agree ((evolving frontEnd strict none Extra).drafting (MayBecome strict component))
      (context, component) (resolve (Resolver.full frontEnd load) owner)
      (resolve (Resolver.full frontEnd twin) owner)
      fun _ pair => IsSettled strict pair.1 pair.2 ∧
        Follows strict owner (context.definition owner).name component pair.2 pair.1 := by
  refine .read rfl (.read rfl ?_)
  dsimp only
  split
  · rename_i known isKnown
    obtain ⟨decoration, decorated, kept⟩ := Option.bind_eq_some_iff.mp isKnown
    obtain ⟨target, found, rfl⟩ := Option.map_eq_some_iff.mp kept
    refine Drafting.agree_modifyDraft valid ⟨?_, (Component.Resolves.refl component).decorate _⟩
      ⟨fun _ _ => .inl rfl, ⟨rfl, rfl, rfl, ?_, ?_⟩⟩
    · intro isStrict resolved holds
      cases holds
      exact designates_of_resolved? (linked isStrict decoration decorated) found
    · intro isStrict _
      rw [resolved?_eq_of_designates (linked isStrict decoration decorated)] at found
      rw [decorated, ← found]
    · intro unresolved
      cases unresolved.symm.trans decorated
  · rename_i noDefinition
    refine .pure ⟨valid, linked, .refl component⟩
      ⟨fun _ named => ?_, ⟨rfl, rfl, rfl, ?_, ?_⟩⟩
    · rw [noDefinition] at named
      cases named
    · exact fun _ _ => rfl
    · intro _ _ isDefinition
      cases noDefinition.symm.trans isDefinition
  · rename_i reference unknown hasDefinition
    have undecorated : strict → component.resolved = none := by
      intro isStrict
      cases decorated : component.resolved with
      | none => rfl
      | some decoration =>
          have designates := linked isStrict decoration decorated
          obtain ⟨target, isTarget, -⟩ := id designates
          rw [decorated, Option.bind_some, resolved?_eq_of_designates designates, isTarget] at unknown
          cases unknown
    have follows : ∀ {reached : Context} {form : Reference} {resolved : Option Resolved},
        (∀ target, resolved.bind (·.id) = some target →
          IsFitting strict reference.clearResolution (some owner) target reached ∧
            reached.references.find?
              ((context.definition owner).name ++ "|" ++ reference.clearResolution.text) =
                some target) →
        Follows strict owner (context.definition owner).name component
          { component with definition := some form, resolved } reached := by
      intro reached form resolved holds
      refine ⟨rfl, rfl, hasDefinition ▸ rfl, fun isStrict decorated => ?_, ?_⟩
      · have isSome := decorated (hasDefinition ▸ rfl)
        rw [undecorated isStrict] at isSome
        cases isSome
      · intro _ other isDefinition
        cases hasDefinition.symm.trans isDefinition
        exact holds
    have answered := (Resolver.agree_full lasts loads harmless (some owner) inScope valid.1
      valid.2 reference.clearResolution).ran (fun found pair =>
        Found strict (fitting strict) reference.clearResolution (some owner) found pair ∧
          ∀ id, found = some id → pair.1.references.find?
            ((context.definition owner).name ++ "|" ++ reference.clearResolution.text) = some id)
      (by
        rintro found ⟨reached, form⟩ ends answer
        obtain ⟨inner, equal⟩ := Resolver.exists_full_eq frontEnd load (some owner) context
          reference.clearResolution
        refine ⟨answer, fun id isFound => ?_⟩
        have remembered := Resolver.withCache_remembers (equal.symm.trans (isFound ▸ ends))
        rwa [Resolver.cacheKey_of_scope] at remembered)
    refine .bind (Drafting.agree_onPart answered
      fun _ form validLater leads values => ⟨IsLinked.lasting valid validLater leads linked,
        .of_values hasDefinition fun value member =>
          reference.values_clearResolution ▸ values value member⟩) ?_
    rintro found ⟨reached, draft⟩ valid _ ⟨part, rfl, -, answer, remembered⟩
    cases found with
    | none =>
        refine Drafting.agree_modifyDraft valid.1
          ⟨fun _ _ found => (by cases found), valid.2.2.decorate none⟩
          ⟨fun isStrict _ => .inr (answer.1 isStrict), follows fun _ found => (by cases found)⟩
    | some id =>
        have isFitting : IsFitting strict reference.clearResolution (some owner) id reached :=
          answer.1
        refine (agree_accept lasts valid.1 isFitting.loaded valid.2).mono ?_
        rintro _ ⟨later, accepted⟩ _ _ ⟨settled, leads, resolved, rfl, isId⟩
        refine ⟨settled, follows fun target found => ?_⟩
        rw [isId target found]
        exact ⟨isFitting.lasts valid.1.1 leads, leads.references _ id (remembered id rfl)⟩

theorem agree_recordRepeated (definition : Definition) :
    Agree reporting context (recordRepeated definition) (recordRepeated definition)
      fun _ reached => reached.log.errors = [] → definition.NamesApart :=
  agree_forM_repeatedBy fun _ _ => Loading.agree_recordError _ _ _

/-- A definition in the making whose sub-components were resolved. -/
structure Completed (strict : Prop) (original : Definition) (id : DefinitionId)
    (context : Context) : Prop where
  typeParameters : (context.definition id).typeParameterNames = original.typeParameterNames
  extendsMerged : (context.definition id).decorations.extendsMerged =
    original.decorations.extendsMerged
  components : List.Forall₂ (fun component resolved =>
    Follows strict id original.name component resolved context)
    original.components (context.definition id).components

theorem names_of_follows {owner : DefinitionId} {ownerName : String}
    {components resolved : List Component}
    (followed : List.Forall₂ (fun component resolved =>
      Follows strict owner ownerName component resolved context) components resolved) :
    resolved.map (·.name) = components.map (·.name) := by
  induction followed with
  | nil => rfl
  | cons follows _ induction => rw [List.map_cons, List.map_cons, follows.name, induction]

/-- Once they are resolved, the sub-components have their decorations. -/
theorem agree_resolveAll (harmless : frontEnd.registry.IsHarmless)
    (attends : Attends frontEnd strict name id Extra) (loads : Loads frontEnd strict Extra load twin)
    (extra : Extra context) (valid : (making frontEnd strict False name generic id).Valid context) :
    Agree (making frontEnd strict False name generic id) context
      (resolveAll (Resolver.full frontEnd load) id) (resolveAll (Resolver.full frontEnd twin) id)
      fun _ reached => (strict → reached.Complete (reached.definition id).links) ∧
        Completed strict (context.definition id) id reached ∧
        (reached.log.errors = [] → (reached.definition id).NamesApart ∧
          Definition.Grows strict reached (context.definition id) (reached.definition id)) := by
  have lasts := attends.lasts
  have whole := valid
  obtain ⟨sound, isMaking, made⟩ := valid
  refine .read rfl ?_
  split
  · rename_i present
    have named := made.names.named (fun definition => !definition.components.isEmpty)
      (fun _ => rfl) present
    refine (Loading.agree_revise_drafted attends whole (?revised : Agree _ _ _ _
      fun _ (pair : Context × Definition) => pair.1.Sound strict ∧ Extra pair.1 ∧
        (strict → pair.1.Complete pair.2.links) ∧
        pair.2.typeParameterNames = (context.definition id).typeParameterNames ∧
        pair.2.decorations.extendsMerged = (context.definition id).decorations.extendsMerged ∧
        List.Forall₂ (fun component resolved =>
          Follows strict id (context.definition id).name component resolved pair.1)
          (context.definition id).components pair.2.components ∧
        (pair.1.log.errors = [] → (context.definition id).NamesApart ∧
          Definition.Grows strict pair.1 (context.definition id) pair.2))).mono ?final
    case revised =>
      refine Drafting.agree_lift_bind Drafted.lasting ⟨sound, extra⟩ (made.drafted named)
        ((agree_recordRepeated _).reported sound extra lasts) ?_
      intro _ reached valid leads drafted apart
      have same := isMaking.definition leads.toEvolves
      have linked : ∀ component ∈ (context.definition id).components,
          IsLinked strict reached component :=
        fun component member isStrict =>
          linked_links_iff.mp (drafted.linked isStrict) component member
      refine .bind (Drafting.agree_onPart
        (Drafting.agree_each MayBecome.lasting
          (fun component _ => (fun _ _ _ before after leads settled =>
            ⟨IsSettled.lasting before after leads settled.1,
              Follows.lasting before after leads settled.2⟩ :
            (evolving frontEnd strict none Extra).Lasting fun reached resolved =>
              IsSettled strict reached resolved ∧
                Follows strict id (context.definition id).name component resolved reached))
          valid (fun component member => ⟨linked component member, .refl component⟩)
          fun _ later component validLater leadsLater may => ?_)
        fun _ components _ leadsLater may => ?_) ?_
      · have resolved := agree_resolve lasts loads harmless
          (fun _ => ⟨id, (attends.making validLater.2).within, rfl⟩) validLater may.1
        rw [(attends.making valid.2).definition leadsLater.toEvolves, same] at resolved
        exact resolved
      · refine ⟨drafted.name, fun silent =>
            drafted.shape (leadsLater.toEvolves.errors_eq_nil silent),
          fun isStrict => linked_links_iff.mpr ?_, fun _ => False.elim,
          fun _ => .of_change (.resolved _ (may.imp fun _ _ may => may.2))⟩
        intro component member
        obtain ⟨_, -, isLinked, -⟩ := exists_left_of_forall₂ may component member
        exact isLinked isStrict
      · rintro values ⟨later, draft⟩ validLater leadsLater ⟨components, rfl, -, visited⟩
        refine .pure validLater ⟨validLater.1.1, validLater.1.2, fun isStrict link member => ?_, rfl,
          rfl, ?_, fun silent =>
            ⟨apart (leadsLater.toEvolves.errors_eq_nil silent), validLater.2.grows silent⟩⟩
        · obtain ⟨component, memberComponent, rfl⟩ := List.mem_map.mp member
          obtain ⟨_, -, done⟩ := exists_left_of_forall₂ visited.items component memberComponent
          exact done.1 isStrict
        · exact visited.items.imp fun _ _ done => done.2
    case final =>
      rintro _ _ _ _ ⟨before, draft, rfl, within, evolves, soundBefore, extraBefore, complete,
        names, merged, followed, settled⟩
      refine ⟨fun isStrict => ?_, ⟨?_, ?_, ?_⟩, fun silent => ?_⟩
      · rw [definition_replace before draft within]
        exact complete isStrict
      · rw [definition_replace before draft within]
        exact names
      · rw [definition_replace before draft within]
        exact merged
      · rw [definition_replace before draft within]
        exact followed.imp fun _ _ follows => follows.lasts soundBefore evolves.toEvolves
      · rw [definition_replace before draft within]
        obtain ⟨apart, grows⟩ := settled silent
        refine ⟨apart.of_names (names_of_follows followed), grows.lasts fun other loaded => ?_⟩
        exact ⟨loaded, definition_replace_of_ne before draft ((attends.making extraBefore).ne_of_loaded loaded)⟩
  · rename_i absent
    have empty : (context.definition id).components = [] := by simpa using absent
    refine .pure whole ⟨fun _ link member => ?_, ⟨rfl, rfl, ?_⟩, fun _ => ⟨?_, .refl _ _⟩⟩
    · rw [Definition.links, empty] at member
      cases member
    · rw [empty]
      exact .nil
    · rw [Definition.NamesApart, empty]
      exact .nil

end SubComponents

/-! ## Parents -/

namespace Parents

/-- A parent is given only when it is loaded and the child may extend it, and the reference is
decorated with it. -/
def IsFound (strict : Prop) (child : Definition) (found : Option DefinitionId) (context : Context)
    (reference : Reference) : Prop :=
  Answers strict (fun parent context => context.Loaded parent ∧
    reference.resolvedId? = some parent ∧
    Inheritance.kindViolation? child.kind (context.definition parent).kind = none) found context

theorem IsFound.lasting (child : Definition) (found : Option DefinitionId) :
    (evolving frontEnd strict none Extra).Lasting (IsFound strict child found) := by
  intro before after reference valid _ leads isFound
  cases found with
  | none => exact fun isStrict => leads.toEvolves.errors_ne_nil (isFound isStrict)
  | some parent =>
      obtain ⟨loaded, decorated, legal⟩ := isFound
      refine ⟨loaded.lasts leads.toEvolves, decorated, ?_⟩
      rwa [valid.1.definition_of_loaded leads.toEvolves nofun loaded]

/-- Accepts a parent that was found, if a definition of its kind may be extended. -/
def judge (child : Definition) (parent : DefinitionId) :
    Revising Reference (Option DefinitionId) := do
  let reference ← Drafting.draft
  match Inheritance.kindViolation? child.kind (← Loading.definition parent).kind with
  | none => return some parent
  | some reason =>
      Loading.recordError .invalidExtends reference.span
        ("'" ++ child.name ++ "' cannot extend '" ++ reference.name ++ "': " ++ reason)
      return none

theorem agree_resolve (lasts : Lasts frontEnd strict Extra) (loads : Loads frontEnd strict Extra load twin)
    (harmless : frontEnd.registry.IsHarmless)
    (inScope : InScope strict (some id) context)
    (valid : (evolving frontEnd strict none Extra).Valid context) (child : Definition)
    (reference : Reference) :
    Agree ((evolving frontEnd strict none Extra).drafting fun _ _ => True) (context, reference)
      (resolve (Resolver.full frontEnd load) load id child)
      (resolve (Resolver.full frontEnd twin) twin id child)
      fun found pair => IsFound strict child found pair.1 pair.2 := by
  have judged : ∀ {context : Context} {reference : Reference} (parent : DefinitionId),
      (evolving frontEnd strict none Extra).Valid context → context.Loaded parent →
      reference.resolvedId? = some parent →
      Agree ((evolving frontEnd strict none Extra).drafting fun _ _ => True) (context, reference)
        (judge child parent) (judge child parent)
        fun found pair => IsFound strict child found pair.1 pair.2 := by
    intro context reference parent valid loaded decorated
    refine .read rfl (.read rfl ?_)
    split
    · rename_i legal
      exact .pure ⟨valid, trivial⟩ ⟨loaded, decorated, legal⟩
    · refine Drafting.agree_lift_bind (Discipline.lasting_const _ fun _ => True) valid trivial
        ((Loading.agree_recordError _ _ _).reported valid.1 valid.2 lasts) ?_
      intro _ reached valid _ _ recorded
      exact .pure ⟨valid, trivial⟩ fun _ => recorded
  refine .bind (Drafting.agree_under (Resolver.agree_full lasts loads harmless (some id) inScope
    valid.1 valid.2 reference) (fun _ valid _ => valid) (fun _ _ leads => leads)
    (fun _ fails => fails) fun _ _ _ _ _ => trivial) ?_
  rintro found ⟨reached, draft⟩ valid _ answer
  cases found with
  | none => exact .pure valid answer.1
  | some target =>
      refine .read rfl ?_
      refine Drafting.agree_lift_bind (Discipline.lasting_const _ fun _ => True) valid.1 trivial
        (agree_substituteValues lasts loads valid.1.1 valid.1.2 draft target true) ?_
      intro substitution later validLater leads _ holds
      have stays : later.Loaded target := Loaded.lasts leads.toEvolves answer.1.loaded
      have decorated : draft.resolvedId? = some target := answer.2 target rfl
      cases substitution with
      | notApplicable => exact judged target validLater stays decorated
      | failed => exact judged target validLater stays decorated
      | substituted copy =>
          obtain ⟨bindings, -, found⟩ := holds
          refine .read rfl ?_
          refine .through (fun _ pair => pair.1.Loaded copy ∧ pair.2.resolvedId? = some copy)
            (Drafting.agree_modifyDraft validLater trivial ⟨⟨_, found⟩, rfl⟩) ?_
          rintro _ ⟨last, draft⟩ valid _ ⟨loaded, decorated⟩
          exact judged copy valid.1 loaded decorated

/-- The sub-components after a merge are some of both sides. -/
theorem links_merged {child parent : Definition} :
    ∀ link ∈ (Inheritance.merged child parent).links, link ∈ parent.links ∨ link ∈ child.links := by
  intro link member
  simp only [Definition.links, Inheritance.merged, List.map_append, List.mem_append] at member ⊢
  refine member.imp_left fun inherited => ?_
  obtain ⟨component, among, rfl⟩ := List.mem_map.mp inherited
  exact List.mem_map_of_mem (List.mem_filter.mp among).1

theorem areErrors_map {α : Type} {items : List α} {complaint : α → Diagnostic}
    (errors : ∀ item, (complaint item).isError = true) : AreErrors (items.map complaint) := by
  intro diagnostic member
  obtain ⟨item, -, rfl⟩ := List.mem_map.mp member
  exact errors item

theorem areErrors_interfaceConflicts (child parent : Definition) :
    AreErrors (Inheritance.interfaceConflicts child parent) := by
  intro diagnostic member
  obtain ⟨inherited, -, found⟩ := List.mem_filterMap.mp member
  obtain ⟨own, -, conflict⟩ := Option.bind_eq_some_iff.mp found
  split at conflict
  · exact nomatch conflict
  · cases conflict
    rfl

theorem areErrors_attributeConflicts (child parent : Definition) :
    AreErrors (Inheritance.attributeConflicts child parent) := by
  intro diagnostic member
  obtain ⟨inherited, -, found⟩ := List.mem_filterMap.mp member
  obtain ⟨own, -, conflict⟩ := Option.bind_eq_some_iff.mp found
  split at conflict
  · exact nomatch conflict
  · cases conflict
    rfl

/-- Everything that can be wrong with what is taken over is an error. -/
theorem areErrors_problems (child parent : Definition) (checksMarkers : Bool) :
    AreErrors (Inheritance.problems child parent checksMarkers) := by
  have marked : ∀ diagnostics : List Diagnostic, AreErrors diagnostics →
      AreErrors (if checksMarkers then diagnostics else []) := by
    intro diagnostics errors
    split
    · exact errors
    · exact fun _ member => nomatch member
  have interfaces := marked (Inheritance.interfaceOverrides child parent)
    (areErrors_map fun _ => rfl)
  have attributes := marked (Inheritance.attributeOverrides child parent)
    (areErrors_map fun _ => rfl)
  have components := marked (Inheritance.componentOverrides child parent)
    (areErrors_map fun _ => rfl)
  have bindings := marked (Inheritance.bindingOverrides child parent)
    (areErrors_map fun _ => rfl)
  have sources := marked (Inheritance.sourceOverrides child parent)
    (areErrors_map fun _ => rfl)
  intro diagnostic member
  simp only [Inheritance.problems, List.mem_append] at member
  rcases member with (((((member | member) | member) | member) | member) | member) | member
  · exact interfaces diagnostic member
  · exact areErrors_interfaceConflicts child parent diagnostic member
  · exact attributes diagnostic member
  · exact areErrors_attributeConflicts child parent diagnostic member
  · exact components diagnostic member
  · exact bindings diagnostic member
  · exact sources diagnostic member

/-- Without errors nothing is wrong with what is taken over. -/
theorem agree_recordProblems (checksMarkers : Bool) (child parent : Definition) :
    Agree reporting context
      (Loading.recordAll (Inheritance.problems child parent checksMarkers))
      (Loading.recordAll (Inheritance.problems child parent checksMarkers))
      fun _ reached => reached.log.errors = [] →
        Inheritance.problems child parent checksMarkers = [] := by
  refine (Loading.agree_recordAll _).mono fun _ reached _ _ recorded silent => ?_
  rw [List.eq_nil_iff_forall_not_mem]
  exact fun diagnostic member =>
    recorded diagnostic member (areErrors_problems child parent checksMarkers diagnostic member)
      silent

theorem agree_inherit (checksMarkers : Bool) (child parent : Definition) :
    Agree reporting context (Inheritance.inherit checksMarkers child parent)
      (Inheritance.inherit checksMarkers child parent)
      fun merged reached => merged = Inheritance.merged child parent ∧
        (reached.log.errors = [] → Inheritance.problems child parent checksMarkers = []) := by
  refine .bind (agree_recordProblems checksMarkers child parent) ?_
  intro _ reached _ _ accepted
  exact .pure trivial ⟨rfl, accepted⟩

/-- What loaded parents hand on together, where `start` tells what is loaded. -/
structure Handed (Holds : Option Resolved × Bool → Prop) (start : Context)
    (ids : List DefinitionId) (context : Context) (definition : Definition) : Prop where
  holds : ∀ link ∈ definition.links, Holds link
  handsOn : context.log.errors = [] → start.HandsOn ids definition

/-- What all parents hand on holds only links that the parents hold. -/
theorem agree_combine (Holds : Option Resolved × Bool → Prop) {start : Context}
    (ids : List DefinitionId) (same : context.definition = start.definition)
    (combined : Option Definition) (parents : List DefinitionId)
    (prior : ∀ definition, combined = some definition →
      Handed Holds start ids context definition)
    (fresh : combined = none → ids = [])
    (each : ∀ parent ∈ parents, start.Loaded parent ∧
      ∀ link ∈ (start.definition parent).links, Holds link) :
    Agree reporting context (combine combined parents) (combine combined parents)
      fun result reached => (result = none → ids ++ parents = []) ∧
        ∀ definition, result = some definition →
          Handed Holds start (ids ++ parents) reached definition := by
  induction parents generalizing combined context ids with
  | nil =>
      rw [List.append_nil]
      exact .pure trivial ⟨fresh, prior⟩
  | cons parent rest induction =>
      refine .read rfl ?_
      obtain ⟨loaded, first⟩ := each parent List.mem_cons_self
      have others : ∀ parent ∈ rest, start.Loaded parent ∧
          ∀ link ∈ (start.definition parent).links, Holds link :=
        fun parent member => each parent (List.mem_cons_of_mem _ member)
      rw [same, ← List.singleton_append, ← List.append_assoc]
      cases combined with
      | none =>
          cases fresh rfl
          refine induction _ same _ (fun definition equal => ?_) nofun others
          cases equal
          exact ⟨first, fun _ => .first loaded⟩
      | some combined =>
          obtain ⟨holds, handsOn⟩ := prior combined rfl
          refine .bind (agree_inherit _ _ _) ?_
          rintro merged reached _ reports ⟨rfl, accepted⟩
          refine induction _ ((funext reports.definition).trans same) _
            (fun definition equal => ?_) nofun others
          cases equal
          refine ⟨fun link among => ?_, fun silent => ?_⟩
          · rcases links_merged link among with old | new
            · exact holds link old
            · exact first link new
          · exact .next (handsOn (reports.evolves.errors_eq_nil silent)) loaded (accepted silent)

/-- What stops its user is a log that keeps the first error only. -/
theorem DiagnosticLog.stops_of_record_error {diagnostic : Diagnostic} {log : DiagnosticLog}
    {error : LoadError} (fails : (DiagnosticLog.record diagnostic log).1 = .error error) :
    error = .aborted ∧ (DiagnosticLog.record diagnostic log).2.policy = .failFast ∧
      (DiagnosticLog.record diagnostic log).2.errors ≠ [] := by
  by_cases severe : diagnostic.isError = true
  · by_cases known : diagnostic ∈ log.errors
    · simp [DiagnosticLog.record, severe, known] at fails
    · cases policy : log.policy with
      | collect => simp [DiagnosticLog.record, severe, known, policy] at fails
      | failFast =>
          have isAborted : LoadError.aborted = error := by
            simpa [DiagnosticLog.record, severe, known, policy] using fails
          exact ⟨isAborted.symm, by simp [DiagnosticLog.record, severe, known, policy]⟩
  · simp [DiagnosticLog.record, severe] at fails

/-- A compilation that stops while it records stops at its first error. -/
theorem stops_of_recordAll_error {diagnostics : List Diagnostic} {error : LoadError}
    {reached : Context}
    (stops : Loading.recordAll diagnostics context = (.error error, reached)) :
    error = .aborted ∧ reached.log.policy = .failFast ∧ reached.log.errors ≠ [] := by
  induction diagnostics generalizing context with
  | nil => cases stops
  | cons diagnostic rest induction =>
      change (Loading.record diagnostic >>= fun _ => Loading.recordAll rest) context = _ at stops
      rw [Step.bind_apply] at stops
      rcases outcome : Loading.record diagnostic context with ⟨result, middle⟩
      rw [outcome] at stops
      cases result with
      | ok _ => exact induction stops
      | error failure =>
          cases stops
          have run : Loading.record diagnostic context =
              ((DiagnosticLog.record diagnostic context.log).1,
                { context with log := (DiagnosticLog.record diagnostic context.log).2 }) := rfl
          rw [run] at outcome
          obtain ⟨fails, rfl⟩ := Prod.mk.inj outcome
          exact DiagnosticLog.stops_of_record_error fails

/-- A stop while errors are reported leaves a blank draft. -/
theorem takeOver_apply (inherited own : Definition) (context : Context) :
    takeOver inherited (context, own) =
      match Loading.recordAll (Inheritance.problems own inherited true) context with
      | (.ok _, reached) => (.ok (), (reached, Inheritance.merged own inherited))
      | (.error error, reached) => (.error error, (reached, .blank false)) := by
  have lifted : ∀ {result : Except LoadError Definition} {reached : Context},
      Inheritance.inherit true own inherited context = (result, reached) →
      (liftM (Inheritance.inherit true own inherited) : Revising Definition Definition)
        (context, .blank false) = (result, (reached, .blank false)) :=
    fun inherits => (Drafting.lift_apply _ _ _).trans (by rw [inherits])
  refine (Step.bind_of_ok rfl).trans ((Step.bind_of_ok rfl).trans ?_)
  rcases outcome : Loading.recordAll (Inheritance.problems own inherited true) context with
    ⟨result, reached⟩
  cases result with
  | ok value =>
      have inherits : Inheritance.inherit true own inherited context =
          (.ok (Inheritance.merged own inherited), reached) := Step.bind_of_ok outcome
      exact Step.bind_of_ok (lifted inherits)
  | error error =>
      have inherits : Inheritance.inherit true own inherited context =
          (.error error, reached) := Step.bind_of_error outcome
      exact Step.bind_of_error (lifted inherits)

theorem Made.markMerged {definition : Definition}
    (made : Made strict whole name generic context definition) :
    Made strict whole name generic context (markMerged definition) where
  names := made.names.imp id fun ⟨stops, _, equal⟩ => ⟨stops, true, equal ▸ rfl⟩
  shape := made.shape
  linked := made.linked
  complete := made.complete

/-- What is taken over makes a definition of a draft, where nothing is wrong with it. The
draft is marked before it can be stored. -/
theorem agree_takeOver (lasts : Lasts frontEnd strict Extra)
    (valid : (evolving frontEnd strict none Extra).Valid context) {base own inherited : Definition}
    (merged : Made strict whole name generic context (Inheritance.merged own inherited))
    (grows : context.log.errors = [] → Inheritance.problems own inherited true = [] →
      Definition.Grows strict context base (markMerged (Inheritance.merged own inherited))) :
    Agree ((evolving frontEnd strict none Extra).drafting
        (Replaces strict whole name generic base)) (context, own)
      (do takeOver inherited; Drafting.modifyDraft markMerged)
      (do takeOver inherited; Drafting.modifyDraft markMerged)
      fun _ pair => pair.2.decorations.extendsMerged = true := by
  have recorded : Agree (evolving frontEnd strict none Extra) context
      (Loading.recordAll (Inheritance.problems own inherited true)) _ _ :=
    (agree_recordProblems true own inherited).reported valid.1 valid.2 lasts
  have taken := takeOver_apply inherited own context
  have validAfter := recorded.valid
  have leads := recorded.leads
  have ended := recorded.ended
  rcases outcome : Loading.recordAll (Inheritance.problems own inherited true) context with
    ⟨result, reached⟩
  rw [outcome] at taken validAfter leads ended
  cases result with
  | ok value =>
      have replaces : Replaces strict whole name generic base reached
          (markMerged (Inheritance.merged own inherited)) := by
        refine ⟨Made.markMerged (merged.lasts valid.1 leads.toEvolves nofun), fun silent => ?_⟩
        have kept : reached.log.errors = [] →
            Definition.Grows strict reached base (markMerged (Inheritance.merged own inherited)) :=
          valid.1.grows_lasts leads.toEvolves fun silentBefore =>
            grows silentBefore (ended silent)
        exact kept silent
      exact .run (Step.bind_of_ok taken) ⟨validAfter, replaces⟩ leads rfl
  | error error =>
      obtain ⟨-, stops, reported⟩ := stops_of_recordAll_error outcome
      have blank : Replaces strict whole name generic base reached (.blank false) :=
        ⟨⟨.inr ⟨⟨stops, reported⟩, false, rfl⟩, fun silent => absurd silent reported,
          fun _ _ member => (nomatch member), fun _ _ _ member => (nomatch member)⟩,
          fun silent => absurd silent reported⟩
      exact .ends (Step.bind_of_error taken) (Step.bind_of_error taken) ⟨validAfter, blank⟩ leads ended

/-- A link that a definition can be given. -/
structure MayHold (strict whole : Prop) (context : Context) (link : Option Resolved × Bool) :
    Prop where
  linked : strict → ∀ resolved, link.1 = some resolved → context.Designates resolved
  complete : strict → whole → link.2 = true →
    link.1.isSome = true ∨ context.log.errors ≠ []

theorem MayHold.lasting {links : List (Option Resolved × Bool)} {before after : Context}
    (holds : ∀ link ∈ links, MayHold strict whole before link) (sound : before.Sound strict)
    (evolves : Evolves none before after) : ∀ link ∈ links, MayHold strict whole after link := by
  intro link member
  have kept := (holds link member)
  refine ⟨fun isStrict resolved found => ?_, fun isStrict isWhole named =>
    (kept.complete isStrict isWhole named).imp_right evolves.errors_ne_nil⟩
  exact (kept.linked isStrict resolved found).mono fun name _ loaded =>
    ⟨evolves.find?_cache loaded, sound.definition_of_loaded evolves nofun ⟨name, loaded⟩⟩

theorem mayHold_of_loaded (sound : context.Sound strict) (loaded : context.Loaded id) :
    ∀ link ∈ (context.definition id).links, MayHold strict whole context link := by
  obtain ⟨name, found⟩ := loaded
  exact fun link member => ⟨fun isStrict => sound.linked_definition isStrict id link member,
    fun isStrict _ => sound.complete isStrict name id found link member⟩

theorem Replaces.markMerged {base definition : Definition}
    (replaces : Replaces strict whole name generic base context definition)
    (orphaned : context.log.errors = [] → strict → definition.parents = []) :
    Replaces strict whole name generic base context (markMerged definition) where
  toMade := Made.markMerged replaces.toMade
  grows silent := (replaces.grows silent).trans (.of_change (.marked (orphaned silent)))

theorem Drafted.extended {base : Definition}
    (drafted : Drafted strict whole name generic base context base)
    (unmerged : base.decorations.extendsMerged = false) (parents : List Reference) :
    Drafted strict whole name generic base context { base with parents } :=
  { drafted with grows := fun _ => .of_change (.extended parents unmerged) }

/-- The parents that were found are loaded, and the child may extend them. -/
structure FindsParents (strict : Prop) (context : Context) (child : Definition)
    (parents : List Reference) (ids : List DefinitionId) : Prop where
  loaded : ∀ id ∈ ids, context.Loaded id
  designated : ∀ id ∈ ids, ∃ reference ∈ parents, reference.resolvedId? = some id
  legal : ∀ id ∈ ids,
    Inheritance.kindViolation? child.kind (context.definition id).kind = none
  whole : context.log.errors = [] → strict → parents.map (·.resolvedId?) = ids.map some

theorem findsParents_of_found {child : Definition} {parents : List Reference}
    {found : List (Option DefinitionId)}
    (foundAll : List.Forall₂ (fun answer reference => IsFound strict child answer context reference)
      found parents) :
    FindsParents strict context child parents (found.filterMap fun parent => parent) := by
  induction foundAll with
  | nil => exact ⟨nofun, nofun, nofun, fun _ _ => rfl⟩
  | @cons answer reference found parents isFound _ induction =>
      have designated : ∀ id ∈ found.filterMap fun parent => parent,
          ∃ other ∈ reference :: parents, other.resolvedId? = some id := fun id member =>
        (induction.designated id member).imp fun _ ⟨among, isTarget⟩ =>
          ⟨List.mem_cons_of_mem _ among, isTarget⟩
      cases answer with
      | none =>
          exact ⟨induction.loaded, designated, induction.legal,
            fun silent isStrict => absurd silent (isFound isStrict)⟩
      | some parent =>
          obtain ⟨loaded, decorated, legal⟩ := isFound
          refine ⟨?_, ?_, ?_, fun silent isStrict => ?_⟩
          · exact List.forall_mem_cons.mpr ⟨loaded, induction.loaded⟩
          · exact List.forall_mem_cons.mpr ⟨⟨reference, List.mem_cons_self, decorated⟩, designated⟩
          · exact List.forall_mem_cons.mpr ⟨legal, induction.legal⟩
          · rw [List.map_cons, decorated, induction.whole silent isStrict]
            rfl

theorem FindsParents.parented {after : Context} {child : Definition} {parents : List Reference}
    {ids : List DefinitionId} (finds : FindsParents strict context child parents ids)
    (silent : context.log.errors = [])
    (kept : ∀ id, context.Loaded id →
      after.Loaded id ∧ after.definition id = context.definition id) :
    child.Parented strict after parents ids where
  designated := finds.designated
  legal id member := by
    rw [(kept id (finds.loaded id member)).2]
    exact finds.legal id member
  whole := finds.whole silent

/-- What a merge does to the slot: it marks it, and leaves alone what was merged before. -/
structure Merges (strict : Prop) (id : DefinitionId) (context reached : Context) : Prop where
  merged : (reached.definition id).decorations.extendsMerged = true
  kept : (context.definition id).decorations.extendsMerged = true →
    (reached.definition id).Keeps (context.definition id)
  grows : reached.log.errors = [] →
    Definition.Grows strict reached (context.definition id) (reached.definition id)

theorem Merges.of_stored {reached : Context} {made : Definition}
    (unmerged : (context.definition id).decorations.extendsMerged = false)
    (stored : reached.definition id = made) (merged : made.decorations.extendsMerged = true)
    (grows : reached.log.errors = [] →
      Definition.Grows strict reached (context.definition id) made) :
    Merges strict id context reached where
  merged := stored ▸ merged
  kept isMerged := nomatch unmerged.symm.trans isMerged
  grows := stored ▸ grows

/-- Merging parents keeps what is made, and where it is whole it stays so. -/
theorem agree_merge (harmless : frontEnd.registry.IsHarmless)
    (attends : Attends frontEnd strict name id Extra) (loads : Loads frontEnd strict Extra load twin)
    (extra : Extra context) (valid : (making frontEnd strict whole name generic id).Valid context) :
    Agree (making frontEnd strict whole name generic id) context
      (merge (Resolver.full frontEnd load) load id)
      (merge (Resolver.full frontEnd twin) twin id)
      fun _ => Merges strict id context := by
  have lasts := attends.lasts
  have start := valid
  obtain ⟨sound, isMaking, made⟩ := valid
  refine .read rfl ?_
  split
  · rename_i merged
    exact .pure start ⟨merged, fun _ => .refl _, fun _ => .refl _ _⟩
  · rename_i notMerged
    have unmerged := Bool.eq_false_iff.mpr notMerged
    split
    · have unchanged : Replaces strict whole name generic (context.definition id) context
          (context.definition id) := ⟨made, fun _ => .refl context _⟩
      have orphaned : (context.definition id).parents = [] := List.isEmpty_iff.mp ‹_›
      refine (Loading.agree_replace start
        (Replaces.markMerged unchanged fun _ _ => orphaned)).mono ?_
      rintro _ reached _ _ ⟨stored, -⟩
      exact .of_stored unmerged stored rfl fun _ => .of_change (.marked fun _ => orphaned)
    · rename_i extended
      have named := made.names.named (fun definition => !definition.parents.isEmpty)
        (fun _ => rfl) (by simpa using extended)
      refine (Loading.agree_revise attends made isMaking sound (Agree.mono (?_ : Agree _ _ _ _
        fun _ (pair : Context × Definition) => pair.2.decorations.extendsMerged = true)
        fun _ pair valid _ merged => And.intro valid merged)).mono ?final
      case final =>
        rintro _ _ _ _ ⟨before, draft, rfl, within, -, ⟨⟨-, extra⟩, replaces⟩, merged⟩
        refine .of_stored unmerged (definition_replace before draft within) merged fun silent => ?_
        have kept : ∀ other, before.Loaded other → (before.replace id draft).Loaded other ∧
            (before.replace id draft).definition other = before.definition other :=
          fun other loaded =>
            ⟨loaded, definition_replace_of_ne before draft
              ((attends.making extra).ne_of_loaded loaded)⟩
        exact (replaces.grows silent).lasts kept
      refine .bind (Drafting.agree_onPart
        (Drafting.agree_each (fun _ => Discipline.lasting_const _ fun _ => True)
          (fun _ => IsFound.lasting (context.definition id)) ⟨sound, extra⟩ (fun _ _ => trivial)
          fun _ _ reference valid _ _ => agree_resolve lasts loads harmless
            (fun _ => ⟨id, (attends.making valid.2).within, rfl⟩) valid _ reference)
        fun _ parents valid leads _ =>
          (Drafted.extended (Drafted.lasting ⟨sound, extra⟩ valid leads
            (made.drafted named)) unmerged parents).replaces) ?_
      rintro found ⟨reached, draft⟩ valid leads ⟨parents, rfl, -, foundAll⟩
      have finds := findsParents_of_found foundAll.values
      refine Drafting.agree_lift_bind Replaces.lasting valid.1 valid.2
        ((agree_combine (MayHold strict whole reached) [] rfl none _
          (fun _ none => nomatch none) (fun _ => rfl) fun parent member =>
            ⟨finds.loaded parent member,
              mayHold_of_loaded valid.1.1 (finds.loaded parent member)⟩).reported
          valid.1.1 valid.1.2 lasts) ?_
      intro inherited later validLater leadsLater _ holds
      have taken := Drafted.extended (Drafted.lasting ⟨sound, extra⟩ validLater
        (Advances.trans leads leadsLater) (made.drafted named)) unmerged parents
      have keptLoaded := valid.1.1.loaded_lasts leadsLater.toEvolves
      cases inherited with
      | none =>
          refine Drafting.agree_modifyDraft validLater (Replaces.markMerged taken.replaces ?_) rfl
          intro silent isStrict
          have whole := finds.whole (leadsLater.toEvolves.errors_eq_nil silent) isStrict
          have none : found.filterMap (fun parent => parent) = [] := holds.1 rfl
          rw [none] at whole
          exact List.map_eq_nil_iff.mp whole
      | some inherited =>
          obtain ⟨links, handsOn⟩ := holds.2 inherited rfl
          have inheritedLinks := MayHold.lasting links valid.1.1 leadsLater.toEvolves
          have mergedLinks : ∀ link ∈ (Inheritance.merged
              { context.definition id with parents } inherited).links,
              MayHold strict whole later link := by
            intro link member
            rcases links_merged link member with old | own
            · exact inheritedLinks link old
            · exact ⟨fun isStrict => taken.linked isStrict link own,
                fun isStrict isWhole => taken.complete isStrict isWhole link own⟩
          exact agree_takeOver lasts validLater
            ⟨.inl taken.name, taken.shape,
              fun isStrict link member => (mergedLinks link member).linked isStrict,
              fun isStrict isWhole link member =>
                (mergedLinks link member).complete isStrict isWhole⟩
            fun silent accepted => .of_change (.merged unmerged
              (finds.parented (leadsLater.toEvolves.errors_eq_nil silent) keptLoaded)
              ((handsOn silent).lasts keptLoaded) accepted)

end Parents

end Adl
