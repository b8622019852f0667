import Adl.Proofs.Loading.Ancestry
import Adl.Proofs.Loading.Inheritance
import Mathlib.Data.List.Nodup
import Mathlib.Data.List.Pairwise

namespace Adl

open Step Context

/-! Elements that are reached through several parents. Where no two definitions of a hierarchy
declare the same element, merging the parents of a definition finds nothing wrong, and leaves each
element once that the definition or one of its ancestors declares. -/

variable {strict whole : Prop} {frontEnd : FrontEnd} {context : Context} {id : DefinitionId}

namespace Context

/-- A definition with all that it extends. -/
def Family (context : Context) (parents : List Reference) (id member : DefinitionId) : Prop :=
  member = id ∨ context.Ancestor parents member

/-- Each element of a family is declared once, by one of its origins, and none is a control
interface. -/
structure Undisputed (family : DefinitionId → Prop) (origin : DefinitionId → Definition) :
    Prop where
  once : ∀ member, family member → (origin member).declaredKeys.Nodup
  apart : ∀ left right, family left → family right → origin left ≠ origin right →
    (origin left).declaredKeys.Disjoint (origin right).declaredKeys
  ordinary : ∀ member, family member → ∀ control ∈ Membrane.controlInterfaces,
    (.interface, control.name) ∉ (origin member).declaredKeys

/-- What a family may declare. -/
def pool (family : DefinitionId → Prop) (origin : DefinitionId → Definition) : Set Declaration :=
  { declaration | declaration.IsControl ∨
      ∃ member, family member ∧ declaration ∈ (origin member).declarations }

variable {family : DefinitionId → Prop} {origin : DefinitionId → Definition}

/-- In such a family the key of a declaration tells all of it. -/
theorem Undisputed.tells (undisputed : Undisputed family origin) :
    (pool family origin).InjOn Declaration.key := by
  have foreign : ∀ {left right : Declaration}, left.IsControl →
      (∃ member, family member ∧ right ∈ (origin member).declarations) → left.key ≠ right.key := by
    rintro _ right ⟨control, known, rfl⟩ ⟨member, among, declares⟩ same
    refine undisputed.ordinary member among control known ?_
    exact Definition.mem_declaredKeys.mpr ⟨right, declares, same.symm⟩
  rintro left (leftControl | leftDeclared) right (rightControl | rightDeclared) same
  · exact leftControl.eq rightControl same
  · exact absurd same (foreign leftControl rightDeclared)
  · exact absurd same.symm (foreign rightControl leftDeclared)
  · obtain ⟨first, firstAmong, declares⟩ := leftDeclared
    obtain ⟨second, secondAmong, alsoDeclares⟩ := rightDeclared
    by_cases shared : origin first = origin second
    · rw [← shared] at alsoDeclares
      exact List.inj_on_of_nodup_map (undisputed.once first firstAmong) declares alsoDeclares same
    · exact absurd (Definition.mem_declaredKeys.mpr ⟨right, alsoDeclares, same.symm⟩)
        (undisputed.apart first second firstAmong secondAmong shared
          (Definition.mem_declaredKeys.mpr ⟨left, declares, rfl⟩))

/-- No two of the definitions declare the same element. -/
def DeclareApart (definitions : List Definition) : Prop :=
  definitions.Pairwise fun left right => ∀ key ∈ left.declaredKeys, key ∉ right.declaredKeys

instance (definitions : List Definition) : Decidable (DeclareApart definitions) :=
  inferInstanceAs (Decidable (definitions.Pairwise _))

/-- A family of such definitions is undisputed. -/
theorem undisputed_of_declareApart {definitions : List Definition}
    (apart : DeclareApart definitions) (among : ∀ member, origin member ∈ definitions)
    (once : ∀ definition ∈ definitions, definition.declaredKeys.Nodup)
    (ordinary : ∀ definition ∈ definitions, ∀ control ∈ Membrane.controlInterfaces,
      (.interface, control.name) ∉ definition.declaredKeys) : Undisputed family origin where
  once member _ := once _ (among member)
  apart left right _ _ different :=
    have : Std.Symm fun left right : Definition =>
        ∀ key ∈ left.declaredKeys, key ∉ right.declaredKeys :=
      ⟨fun _ _ apart key member other => apart key other member⟩
    fun _ => List.Pairwise.forall apart (among left) (among right) different _
  ordinary member _ := ordinary _ (among member)

/-- What a member of the family declares is in the pool, as its ancestors are members too. -/
theorem Originates.mem_pool {definition : Definition} {member : DefinitionId}
    (originates : context.Originates origin member definition) (among : family member)
    (further : ∀ ancestor, definition.decorations.extendsMerged = true →
      context.Ancestor definition.parents ancestor → family ancestor) :
    ∀ declaration ∈ definition.declarations, declaration ∈ pool family origin := by
  intro declaration declares
  rcases originates.declared declaration declares with first | control |
    ⟨merged, ancestor, isAncestor, inherited⟩
  · exact .inr ⟨member, among, first⟩
  · exact .inl control
  · exact .inr ⟨ancestor, further ancestor merged isAncestor, inherited⟩

end Context

theorem Definition.Subsumes.declarations {definition other : Definition}
    (subsumes : definition.Subsumes other) : other.declarations ⊆ definition.declarations := by
  have each : ∀ {α β : Type} {items others : List α} {read : α → β} (declare : β → Declaration),
      others.map read ⊆ items.map read →
      others.map (declare ∘ read) ⊆ items.map (declare ∘ read) := by
    intro α β items others read declare subset
    rw [← List.map_map, ← List.map_map]
    exact List.map_subset declare subset
  have interfaces := each .interface subsumes.interfaces
  have attributes := each (fun pair => .attribute pair.1 pair.2) subsumes.attributes
  have components := each .component subsumes.components
  have sources := each .source subsumes.sources
  intro declaration member
  simp only [Definition.declarations, List.mem_append] at member ⊢
  exact member.imp (Or.imp (Or.imp (@interfaces _) (@attributes _)) (@components _)) (@sources _)

namespace Parents

/-! ## Merges without problems -/

theorem inherit_of_silent {child parent : Definition} {checksMarkers : Bool}
    (silent : Inheritance.problems child parent checksMarkers = []) :
    Inheritance.inherit checksMarkers child parent context =
      (.ok (Inheritance.merged child parent), context) := by
  unfold Inheritance.inherit
  rw [silent]
  rfl

variable {pool : Set Declaration} (tells : pool.InjOn Declaration.key)
include tells

/-- Parents whose declarations do not get in the way of each other hand these on. -/
theorem exists_combine (ids : List DefinitionId) (combined : Option Definition)
    (each : ∀ id ∈ ids, ∀ declaration ∈ (context.definition id).declarations, declaration ∈ pool)
    (prior : ∀ definition, combined = some definition →
      ∀ declaration ∈ definition.declarations, declaration ∈ pool) :
    ∃ result, combine combined ids context = (.ok result, context) ∧
      ∀ definition, result = some definition →
        ∀ declaration ∈ definition.declarations, declaration ∈ pool := by
  induction ids generalizing combined with
  | nil => exact ⟨combined, rfl, prior⟩
  | cons id rest induction =>
      have first := each id List.mem_cons_self
      have others := fun parent member => each parent (List.mem_cons_of_mem id member)
      cases combined with
      | none =>
          obtain ⟨result, runs, within⟩ := induction
            (some (Inheritance.inheritable (context.definition id))) others fun _ same =>
              Option.some.inj same ▸ first
          exact ⟨result, (Step.bind_of_ok rfl).trans runs, within⟩
      | some combined =>
          have handed := prior combined rfl
          obtain ⟨result, runs, within⟩ := induction
            (some (Inheritance.merged (Inheritance.inheritable (context.definition id)) combined))
            others fun _ same => Option.some.inj same ▸ fun declaration member =>
              (Definition.mem_of_mem_merged member).elim (first declaration) (handed declaration)
          refine ⟨result, (Step.bind_of_ok rfl).trans ((Step.bind_of_ok ?_).trans runs), within⟩
          exact inherit_of_silent (Definition.problems_eq_nil tells first handed nofun)

/-- Once the parents were found, they are merged without errors. -/
theorem exists_merge {resolver : Resolver} {load : String → Loading DefinitionId}
    {answers : List (Option DefinitionId)} {reached : Context} {parents : List Reference}
    (unmerged : (context.definition id).decorations.extendsMerged = false)
    (resolved : Drafting.each (fun _ => resolve resolver load id (context.definition id))
      (context, (context.definition id).parents) = (.ok answers, (reached, parents)))
    (own : ∀ declaration ∈ (context.definition id).declarations, declaration ∈ pool)
    (unmarked : (context.definition id).IsUnmarked)
    (each : ∀ parent, some parent ∈ answers →
      ∀ declaration ∈ (reached.definition parent).declarations, declaration ∈ pool) :
    ∃ inherited draft, combine none (answers.filterMap fun parent => parent) reached =
        (.ok inherited, reached) ∧
      draft = markMerged (inherited.elim { context.definition id with parents }
        (Inheritance.merged { context.definition id with parents })) ∧
      merge resolver load id context = (.ok (), reached.replace id draft) := by
  have stored : ∀ {revision : Revising Definition Unit} {draft : Definition},
      revision (context, context.definition id) = (.ok (), (reached, draft)) →
      Loading.revise id revision context = (.ok (), reached.replace id draft) := by
    intro revision draft runs
    simp only [Loading.revise, runs]
  have parts : Drafting.onPart (·.parents)
      (fun parents definition => { definition with parents })
      (Drafting.each fun _ => resolve resolver load id (context.definition id))
      (context, context.definition id) =
        (.ok answers, (reached, { context.definition id with parents })) := by
    simp only [Drafting.onPart, resolved]
  obtain ⟨inherited, combines, within⟩ := exists_combine tells
    (answers.filterMap fun parent => parent) none
    (fun parent member => each parent (by simpa using member)) (by simp)
  have combined : (liftM (combine none (answers.filterMap fun parent => parent)) :
      Revising Definition (Option Definition)) (reached, { context.definition id with parents }) =
        (.ok inherited, (reached, { context.definition id with parents })) :=
    (Drafting.lift_apply _ _ _).trans (by rw [combines])
  refine ⟨inherited, _, combines, rfl, ?_⟩
  unfold merge
  have read : Loading.definition id context = (.ok (context.definition id), context) := rfl
  refine (Step.bind_of_ok read).trans ?_
  rw [if_neg (Bool.eq_false_iff.mp unmerged)]
  by_cases orphaned : (context.definition id).parents.isEmpty = true
  · have none : (context.definition id).parents = [] := List.isEmpty_iff.mp orphaned
    rw [if_pos orphaned]
    rw [none] at resolved
    cases resolved
    cases combines
    exact congrArg (fun parents => ((.ok (), context.replace id (markMerged
      { context.definition id with parents })) : Except LoadError Unit × Context)) none
  · rw [if_neg orphaned]
    refine stored ?_
    refine (Step.bind_of_ok parts).trans ?_
    refine (Step.bind_of_ok combined).trans ?_
    cases inherited with
    | none => rfl
    | some inherited =>
        have accepted : Inheritance.problems { context.definition id with parents } inherited true =
            [] := Definition.problems_eq_nil tells own (within inherited rfl) fun _ =>
              { unmarked with }
        have taken : takeOver inherited (reached, { context.definition id with parents }) =
            (.ok (), (reached,
              Inheritance.merged { context.definition id with parents } inherited)) := by
          rw [takeOver_apply, accepted]
          rfl
        exact Step.bind_of_ok taken

end Parents

/-! ## What a merge leaves -/

/-- A definition declares all that its ancestors do. -/
theorem Context.declarations_of_ancestor {definition : Definition} {ancestor : DefinitionId}
    (heirs : ∀ id, context.Loaded id → context.IsHeir (context.definition id))
    (merged : ∀ id, context.Loaded id → (context.definition id).decorations.extendsMerged = true)
    (isHeir : context.IsHeir definition) (isMerged : definition.decorations.extendsMerged = true)
    (isAncestor : context.Ancestor definition.parents ancestor) :
    (context.definition ancestor).declarations ⊆ definition.declarations := by
  have parent : ∀ {heir : Definition} {reference : Reference} {id : DefinitionId},
      context.IsHeir heir → heir.decorations.extendsMerged = true → reference ∈ heir.parents →
      reference.resolvedId? = some id →
      (context.definition id).declarations ⊆ heir.declarations := by
    intro heir reference id isHeir isMerged member resolved
    obtain ⟨other, also, -, substitutes⟩ := isHeir isMerged reference member
    cases resolved.symm.trans also
    exact substitutes.declarations
  induction isAncestor with
  | parent member resolved _ => exact parent isHeir isMerged member resolved
  | @further _ middle _ first member resolved _ induction =>
      exact List.Subset.trans
        (parent (heirs middle first.loaded) (merged middle first.loaded) member resolved) induction

namespace Context

/-- A definition has what its family declares, each element once, and nothing else but control
interfaces. -/
structure DeclaresOnce (family : DefinitionId → Prop) (origin : DefinitionId → Definition)
    (definition : Definition) : Prop where
  declares : ∀ member, family member → (origin member).declarations ⊆ definition.declarations
  declared : ∀ declaration ∈ definition.declarations, declaration ∈ pool family origin
  once : definition.declaredKeys.Nodup

theorem Originates.declaresOnce {before after : Context} {origin : DefinitionId → Definition}
    {definition : Definition} (made : before.Originates origin id definition)
    (all : ∀ id, before.Originates origin id (before.definition id))
    (kept : KeepsLoaded before after)
    (heirs : ∀ id, after.Loaded id → after.IsHeir (after.definition id))
    (merged : ∀ id, after.Loaded id → (after.definition id).decorations.extendsMerged = true)
    (isHeir : after.IsHeir definition) (isMerged : definition.decorations.extendsMerged = true)
    (undisputed : Undisputed (before.Family definition.parents id) origin) :
    DeclaresOnce (before.Family definition.parents id) origin definition where
  declares := by
    rintro member (rfl | isAncestor)
    · exact made.declares
    · have handedDown := declarations_of_ancestor heirs merged isHeir isMerged (isAncestor.lasts kept)
      rw [kept.definition member isAncestor.loaded] at handedDown
      exact List.Subset.trans (all member).declares handedDown
  declared := made.mem_pool (.inl rfl) fun _ _ => .inr
  once := made.once (undisputed.once id (.inl rfl)) fun _ ancestor isAncestor =>
    undisputed.once ancestor (.inr isAncestor)

end Context

namespace Parents

variable {name : String} {generic : Bool} {load twin : String → Loading DefinitionId}
  {answers : List (Option DefinitionId)} {reached : Context} {parents : List Reference}
  {Given : Definition → Prop} {origin : DefinitionId → Definition}

/-- Parents that were all looked for are found. -/
theorem findsParents_of_each (harmless : frontEnd.registry.IsHarmless)
    (loads : Loads frontEnd strict (Making name id) load twin) (sound : context.Sound strict)
    (isMaking : Making name id context)
    (resolved : Drafting.each
      (fun _ => resolve (Resolver.full frontEnd load) load id (context.definition id))
      (context, (context.definition id).parents) = (.ok answers, (reached, parents))) :
    reached.Sound strict ∧ Making name id reached ∧ Advances frontEnd strict none context reached ∧
      FindsParents strict reached (context.definition id) parents
        (answers.filterMap fun parent => parent) := by
  obtain ⟨⟨valid, -⟩, leads, foundAll⟩ := (Drafting.agree_each
    (fun _ => Discipline.lasting_const _ fun _ => True)
    (fun _ => IsFound.lasting (context.definition id)) ⟨sound, isMaking⟩ (fun _ _ => trivial)
    fun _ _ reference valid _ _ => agree_resolve (attends_making frontEnd strict name id).lasts
      loads harmless (fun _ => ⟨id, valid.2.within, rfl⟩) valid _ reference).of_ok resolved
  exact ⟨valid.1, valid.2, leads, findsParents_of_found foundAll.values⟩

/-- Where a family is undisputed, the merge of the parents that were found records nothing, and
what results declares everything once. -/
theorem exists_merge_once (harmless : frontEnd.registry.IsHarmless)
    (loads : Loads frontEnd True (Making name id) load twin)
    (valid : (making frontEnd True whole name generic id).Valid context)
    (heirs : ∀ after, Path frontEnd True context after → after.log.errors = [] →
      ∀ id, after.IsHeir (after.definition id))
    (unmerged : (context.definition id).decorations.extendsMerged = false)
    (resolved : Drafting.each
      (fun _ => resolve (Resolver.full frontEnd load) load id (context.definition id))
      (context, (context.definition id).parents) = (.ok answers, (reached, parents)))
    (silent : reached.log.errors = []) (origins : reached.HasOrigins Given origin)
    (undisputed : Undisputed (reached.Family parents id) origin)
    (unmarked : (origin id).IsUnmarked) :
    ∃ after, merge (Resolver.full frontEnd load) load id context = (.ok (), after) ∧
      after.log.errors = [] ∧
      DeclaresOnce (reached.Family parents id) origin (after.definition id) := by
  obtain ⟨sound, isMaking, leads, finds⟩ :=
    findsParents_of_each harmless loads valid.1 valid.2.1 resolved
  have all : ∀ id, reached.Originates origin id (reached.definition id) := fun id => (origins id).2
  have own : reached.Originates origin id (context.definition id) :=
    valid.2.1.definition leads.toEvolves ▸ all id
  have isParent : ∀ parent, some parent ∈ answers → reached.Ancestor parents parent := by
    intro parent answered
    have found : parent ∈ answers.filterMap fun parent => parent := by simpa using answered
    obtain ⟨reference, member, designates⟩ := finds.designated parent found
    exact .parent member designates (finds.loaded parent found)
  obtain ⟨inherited, draft, combines, isDraft, merges⟩ := exists_merge undisputed.tells unmerged resolved
    (own.mem_pool (.inl rfl) fun _ merged => nomatch unmerged.symm.trans merged)
    (own.unmarked unmerged unmarked)
    fun parent answered => (all parent).mem_pool (.inr (isParent parent answered))
      fun _ _ isAncestor => .inr ((isParent parent answered).trans isAncestor)
  have draftMade : reached.Originates origin id draft ∧ draft.parents = parents ∧
      draft.decorations.extendsMerged = true := by
    subst isDraft
    cases inherited with
    | none =>
        have grows : Definition.Grows False reached (context.definition id)
            (markMerged { context.definition id with parents }) :=
          (Definition.Grows.of_change (.extended parents unmerged)).trans
            (.of_change (.marked False.elim))
        exact ⟨own.grows all grows, rfl, rfl⟩
    | some inherited =>
        have handed := ((agree_combine (fun _ => True) [] rfl none
          (answers.filterMap fun parent => parent) nofun (fun _ => rfl) fun parent member =>
            ⟨finds.loaded parent member, fun _ _ => trivial⟩).of_ok combines).2.2.2 inherited rfl
        exact ⟨own.merge all unmerged finds.designated (handed.handsOn silent), rfl, rfl⟩
  obtain ⟨made, rfl, isMerged⟩ := draftMade
  obtain ⟨⟨soundAfter, -⟩, leadsAfter, -⟩ := (agree_merge harmless
    (attends_making frontEnd True name id) loads valid.2.1 valid).of_ok merges
  have heir := heirs _ (Advances.path leadsAfter) silent
  have stored : (reached.replace id draft).definition id = draft :=
    definition_replace reached draft isMaking.within
  have isHeir := heir id
  rw [stored] at isHeir
  have kept := (sound.hasSlots.replace isMaking draft).1
  refine ⟨_, merges, silent, ?_⟩
  rw [stored]
  exact made.declaresOnce all kept (fun id _ => heir id)
    (fun other ⟨known, found⟩ => soundAfter.merged known other found) isHeir isMerged undisputed

end Parents

/-! ## Up to the merge -/

namespace Stage

/-- The stages before the parents are merged. -/
def beforeParents : List Stage :=
  [.annotations, .process .afterParsing, .typeParameters, .subComponents]

theorem agree_runBeforeParents (harmless : frontEnd.registry.IsHarmless) {name : String}
    {generic : Bool} {load twin : String → Loading DefinitionId}
    (loads : Loads frontEnd strict (Making name id) load twin)
    (valid : (making frontEnd strict False name generic id).Valid context) :
    Agree (making frontEnd strict False name generic id) context
      (beforeParents.forM (run frontEnd load name id))
      (beforeParents.forM (run frontEnd twin name id)) fun _ _ => True := by
  have attends := attends_making frontEnd strict name id
  refine .forM (fun _ => True) valid trivial fun stage member reached valid _ => ?_
  by_cases others : stage ∉ loading
  · exact (Agree.making valid (agree_runEditing harmless others valid.2.1)).forget
  · have either : ∀ stage ∈ beforeParents, stage ∈ loading →
        stage = .typeParameters ∨ stage = .subComponents := by
      decide
    rcases either stage member (not_not.mp others) with rfl | rfl
    · exact (TypeParameters.agree_check harmless attends loads valid.2.1 valid).forget
    · exact (SubComponents.agree_resolveAll harmless attends loads valid.2.1 valid).forget

end Stage

namespace FrontEnd

/-- The parents of a definition are looked for, as its merge does. -/
def findParents (frontEnd : FrontEnd) (levels : Nat) (id : DefinitionId) (context : Context) :
    Except LoadError (List (Option DefinitionId)) × Context × List Reference :=
  Drafting.each
    (fun _ => Parents.resolve (Resolver.full frontEnd (frontEnd.loadWithin levels))
      (frontEnd.loadWithin levels) id (context.definition id))
    (context, (context.definition id).parents)

/-- A name that is not loaded was taken up to the merge of its parents, and these were looked for,
without errors. -/
structure ReachesMerge (frontEnd : FrontEnd) (levels : Nat) (start : Context) (name : String)
    (id : DefinitionId) (context reached : Context) (parents : List Reference) : Prop where
  absent : start.cache.find? name = none
  ran : frontEnd.runStages (frontEnd.loadWithin levels) Stage.beforeParents name
    (LoadCache.entering start name) = (.ok id, context)
  unmerged : (context.definition id).decorations.extendsMerged = false
  resolved : ∃ answers, frontEnd.findParents levels id context = (.ok answers, (reached, parents))
  silent : reached.log.errors = []

theorem ok_of_toOption {failure given : Type} {outcome : Except failure given} {value : given}
    (same : outcome.toOption = some value) : outcome = .ok value := by
  cases outcome with
  | error failure => exact nomatch same
  | ok other => exact congrArg Except.ok (Option.some.inj same)

theorem loads_loadWithin (harmless : frontEnd.registry.IsHarmless) (plain : frontEnd.ParsesPlainly)
    (levels : Nat) (name : String) (id : DefinitionId) :
    Loads frontEnd True (Making name id) (frontEnd.loadWithin levels)
      (frontEnd.loadGuarded .aborted levels) :=
  loads_loadGuarded harmless (fun _ => plain) .aborted levels (attends_making _ _ name id).lasts

/-- Up to there the definition of the name is the one that is made. -/
theorem ReachesMerge.valid {levels : Nat} {start reached : Context} {name : String}
    {parents : List Reference} (harmless : frontEnd.registry.IsHarmless)
    (plain : frontEnd.ParsesPlainly) (sound : start.Sound True)
    (reaches : frontEnd.ReachesMerge levels start name id context reached parents) :
    ∃ generic, (making frontEnd True False name generic id).Valid context ∧
      Path frontEnd True start context := by
  have entered : name ∈ (LoadCache.entering start name).loading :=
    List.mem_append_right _ List.mem_cons_self
  obtain ⟨trace, counts⟩ := frontEnd.exists_runStages (frontEnd.loadWithin levels)
    Stage.beforeParents name (LoadCache.entering start name)
  obtain ⟨found, middle, finds, ran⟩ := Step.ok_of_bind (counts ▸ reaches.ran)
  obtain ⟨⟨⟩, last, ran, same⟩ := Step.ok_of_bind ran
  cases same
  have reports : Reports (LoadCache.entering start name)
      { LoadCache.entering start name with trace } := { Reports.refl _ with }
  obtain ⟨valid, path⟩ := Sources.making_of_find (fun _ => plain)
    ((sound.loading (start.loading ++ [name])).ofReports reports) entered reaches.absent finds
  obtain ⟨validLast, leadsLast, -⟩ := (Stage.agree_runBeforeParents harmless
    (loads_loadWithin harmless plain levels name id) valid).of_ok ran
  refine ⟨_, validLast, ?_⟩
  exact ((Path.start.loading _).reported reports).trans (path.trans (Advances.path leadsLast))

end FrontEnd

/-! ## Diamonds -/

namespace Context

/-- Each definition is one of the known ones, or a copy or an instance of one of them. -/
def Stems (context : Context) (Known : Definition → Prop) (origin : DefinitionId → Definition) :
    Prop :=
  ∀ id, (Known (origin id) ∨ origin id = default) ∧
    NamedAfter (origin id).name (context.definition id).name

end Context

namespace FrontEnd

/-- After a compilation of undecorated definitions that succeeds, each definition that was merged
has all that its family declares once, where this is undisputed. Loading one more definition, with
no element marked as one that replaces an inherited one, merges its parents without errors, and
it has all that its family declares once, too. -/
theorem diamonds_merged_once (frontEnd : FrontEnd) (options : Options)
    (definitions : List Definition) (roots : List String)
    (predefined : frontEnd.registry = .predefined) (plain : frontEnd.ParsesPlainly)
    (undecorated : ∀ definition, definition ∈ definitions ∨ frontEnd.Parses definition →
      definition.decorations = .none ∧
        ∀ component ∈ definition.components, component.resolved = none) {compiled : Compiled}
    (succeeds : (frontEnd.compile (.ofDefinitions options definitions) roots).outcome =
      .ok compiled) :
    let Known definition := definition ∈ definitions ∨ frontEnd.Parses definition
    (∃ origin, compiled.context.Stems Known origin ∧ ∀ id,
      let definition := compiled.context.definition id
      let family := compiled.context.Family definition.parents id
      definition.decorations.extendsMerged = true → Undisputed family origin →
        DeclaresOnce family origin definition) ∧
    ∀ levels name id context reached parents,
      frontEnd.ReachesMerge levels compiled.context name id context reached parents →
      ∃ origin, reached.Stems Known origin ∧
        let family := reached.Family parents id
        (Undisputed family origin → (origin id).IsUnmarked →
          ∃ after, Stage.run frontEnd (frontEnd.loadWithin levels) name id .parents context =
              (.ok (), after) ∧ after.log.errors = [] ∧
            DeclaresOnce family origin (after.definition id)) := by
  intro Known
  have harmless : frontEnd.registry.IsHarmless :=
    predefined ▸ AnnotationRegistry.isHarmless_predefined
  obtain ⟨sound, silent, advances⟩ := advances_compile harmless (fun _ : True => plain) roots
    (sound_ofDefinitions options definitions fun _ definition member =>
      (undecorated definition (.inl member)).2) succeeds
  have unmerged : ∀ definition, Known definition → definition.decorations.extendsMerged = false :=
    fun definition known => by
      rw [(undecorated definition known).1]
      rfl
  have heirs : ∀ {after}, Path frontEnd True (.ofDefinitions options definitions) after →
      after.log.errors = [] → ∀ id, after.IsHeir (after.definition id) := fun path silent =>
    (maintains_isHeir trivial fun definition parsed =>
      unmerged definition (.inr parsed)).ofDefinitions (fun definition member merged =>
        nomatch (unmerged definition (.inl member)).symm.trans merged) path silent
  have origins : ∀ {after}, Path frontEnd True (.ofDefinitions options definitions) after →
      after.log.errors = [] →
      ∃ origin, after.HasOrigins (fun definition => Known definition ∨ definition = default) origin := by
    intro after path silent
    refine path.exists_origins (fun definition parsed => .inl (.inr parsed))
      (hasSlots_ofDefinitions options definitions)
      ⟨_, fun id => ⟨?_, .itself rfl⟩⟩ silent
    exact (definition_ofDefinitions options definitions id).imp_left .inl
  constructor
  · obtain ⟨origin, hasOrigins⟩ := origins advances.path silent
    refine ⟨origin, fun id => ⟨(hasOrigins id).1, (hasOrigins id).2.named⟩, ?_⟩
    intro id _ _ merged undisputed
    have heir := heirs advances.path silent
    exact (hasOrigins id).2.declaresOnce (fun id => (hasOrigins id).2) (.refl _) (fun id _ => heir id)
      (fun other ⟨known, found⟩ => sound.merged known other found) (heir id) merged undisputed
  · intro levels name id context reached parents reaches
    obtain ⟨generic, valid, path⟩ := reaches.valid harmless plain sound
    obtain ⟨answers, resolved⟩ := reaches.resolved
    have loads := loads_loadWithin harmless plain levels name id
    obtain ⟨-, -, leads, -⟩ := Parents.findsParents_of_each harmless loads valid.1 valid.2.1 resolved
    have before := advances.path.trans path
    obtain ⟨origin, hasOrigins⟩ := origins (before.trans leads.path) reaches.silent
    refine ⟨origin, fun id => ⟨(hasOrigins id).1, (hasOrigins id).2.named⟩, ?_⟩
    exact Parents.exists_merge_once harmless loads valid
      (fun after path silent => heirs (before.trans path) silent) reaches.unmerged resolved
      reaches.silent hasOrigins

/-- Two primitives that extend the same copy of a third one, and one that extends both. -/
def diamond : List Definition :=
  let bottom : Reference := ⟨"a.T", [⟨some "size", .number 4, .generated⟩], [], .generated, none⟩
  [ { (Definition.ofKind "a.T" .primitive).ensureParameter "size" with
      interfaces := [.ofRole .server "x" "s"]
      attributes := [⟨"n", "int", some (.reference "size"), .generated, .none⟩]
      sources := [.ofPath "t.c"] },
    { Definition.ofKind "a.L" .primitive with
      interfaces := [.ofRole .client "l" "s"]
      parents := [bottom] },
    { Definition.ofKind "a.R" .primitive with
      parents := [bottom]
      sources := [.ofPath "r.c"] },
    { Definition.ofKind "a.A" .primitive with
      interfaces := [.ofRole .client "y" "s"]
      parents := [.ofName "a.L", .ofName "a.R"] } ]

/-- The last of them has the interface, the attribute and the source of the first once. -/
theorem diamond_merged_once :
    ∃ compiled context reached parents origin after,
      (registeredOnly.compile (.ofDefinitions .default diamond) ["a.L", "a.R"]).outcome =
        .ok compiled ∧
      registeredOnly.ReachesMerge 8 compiled.context "a.A" 3 context reached parents ∧
      Undisputed (reached.Family parents 3) origin ∧ (origin 3).IsUnmarked ∧
      Stage.run registeredOnly (registeredOnly.loadWithin 8) "a.A" 3 .parents context =
        (.ok (), after) ∧
      after.log.errors = [] ∧
      DeclaresOnce (reached.Family parents 3) origin (after.definition 3) ∧
      (after.definition 3).declaredKeys =
        [(.interface, "l"), (.interface, "x"), (.interface, "y"), (.attribute, "n"),
          (.source, "t.c"), (.source, "r.c")] := by
  have succeeds : (registeredOnly.compile (.ofDefinitions .default diamond)
      ["a.L", "a.R"]).outcome.toOption.any (fun compiled =>
        let before := registeredOnly.runStages (registeredOnly.loadWithin 8) Stage.beforeParents "a.A"
          (LoadCache.entering compiled.context "a.A")
        let found := registeredOnly.findParents 8 3 before.2
        let merges := Stage.run registeredOnly (registeredOnly.loadWithin 8) "a.A" 3 .parents before.2
        compiled.context.cache.find? "a.A" = none ∧ before.1.toOption = some 3 ∧
        (before.2.definition 3).decorations.extendsMerged = false ∧ found.1.toOption.isSome ∧
        found.2.1.log.errors = [] ∧ (merges.2.definition 3).declaredKeys =
          [(.interface, "l"), (.interface, "x"), (.interface, "y"), (.attribute, "n"),
            (.source, "t.c"), (.source, "r.c")]) = true := by
    decide +kernel
  obtain ⟨compiled, outcome, absent, ran, unmerged, resolved, silent, keys⟩ :=
    exists_ok_of_any succeeds
  have undecorated : ∀ definition ∈ diamond, definition.decorations = .none ∧
      ∀ component ∈ definition.components, component.resolved = none := by
    decide
  obtain ⟨-, merges⟩ := diamonds_merged_once registeredOnly .default diamond ["a.L", "a.R"] rfl
    parsesPlainly_registeredOnly (fun definition known => known.elim (undecorated definition)
      fun ⟨_, _, _, _, isParser, _⟩ => nomatch isParser) outcome
  have reaches : registeredOnly.ReachesMerge 8 compiled.context "a.A" 3 _ _ _ :=
    ⟨absent, Prod.ext (ok_of_toOption ran) rfl, unmerged,
      (Option.isSome_iff_exists.mp resolved).imp fun _ found => Prod.ext (ok_of_toOption found) rfl,
      silent⟩
  obtain ⟨origin, stems, once⟩ := merges 8 "a.A" 3 _ _ _ reaches
  have among : ∀ member, origin member ∈ default :: diamond := by
    intro member
    rcases (stems member).1 with (known | ⟨_, _, _, _, isParser, _⟩) | isDefault
    · exact List.mem_cons_of_mem _ known
    · exact nomatch isParser
    · exact isDefault ▸ List.mem_cons_self
  have undisputed : ∀ family, Undisputed family origin := fun family =>
    undisputed_of_declareApart (by decide +kernel) among (by decide +kernel) (by decide +kernel)
  have unmarked : ∀ definition ∈ default :: diamond, definition.IsUntyped ∧
      AnnotationRegistry.isAnnotated definition = false := by
    decide +kernel
  obtain ⟨untyped, plain⟩ := unmarked _ (among 3)
  have isUnmarked := Definition.isUnmarked_of_plain untyped plain
  obtain ⟨after, runs, noErrors, declares⟩ := once (undisputed _) isUnmarked
  have last := congrArg Prod.snd runs
  subst last
  exact ⟨compiled, _, _, _, origin, _, outcome, reaches, undisputed _, isUnmarked, runs, noErrors,
    declares, keys⟩

/-- A type, two primitives that extend it, and one that extends both, with changes to the last
three. -/
def diamondOf (left right last : Definition → Definition) : List Definition :=
  [ { Definition.ofKind "a.T" .type with interfaces := [.ofRole .client "x" "s"] },
    left { Definition.ofKind "a.L" .primitive with
      parents := [.ofName "a.T"]
      sources := [.ofPath "l.c"] },
    right { Definition.ofKind "a.R" .primitive with
      parents := [.ofName "a.T"]
      sources := [.ofPath "r.c"] },
    last { Definition.ofKind "a.A" .primitive with
      parents := [.ofName "a.L", .ofName "a.R"] } ]

/-- An interface of the last definition is marked although it replaces nothing. -/
def markedDiamond : List Definition :=
  diamondOf (fun definition => definition) (fun definition => definition) fun definition =>
    { definition with
      interfaces := [{ Interface.ofRole .client "y" "s" with
        annotations := ⟨[.ofType Annotation.overrideKind], []⟩ }] }

/-- One of the parents declares a source twice. -/
def repeatingDiamond : List Definition :=
  diamondOf (fun definition => { definition with sources := definition.sources ++ [.ofPath "l.c"] })
    (fun definition => definition) fun definition => definition

/-- One of the parents comes to have a control interface, the other declares an interface of its
name. -/
def controlledDiamond : List Definition :=
  diamondOf (fun definition =>
      { definition with annotations := ⟨[.ofType "LifeCycleController"], []⟩ })
    (fun definition => { definition with interfaces := [.ofRole .client "lifeCycleController" "s"] })
    fun definition => definition

/-- What keeps a compilation of the last definition from succeeding. -/
def problemsOfDiamond (definitions : List Definition) : List (DiagnosticKind × String) :=
  match (registeredOnly.compile (.ofDefinitions .default definitions) ["a.A"]).outcome with
  | .ok _ => []
  | .error problems => problems.map fun problem => (problem.kind, problem.message)

/-- That no two definitions declare the same element is not enough. -/
theorem diamonds_disputed :
    (DeclareApart markedDiamond ∧ problemsOfDiamond markedDiamond =
      [(.invalidOverride, "interface 'y' is marked @Override but overrides nothing")]) ∧
    (DeclareApart controlledDiamond ∧ problemsOfDiamond controlledDiamond =
      [(.invalidOverride, "interface 'lifeCycleController' overrides an inherited interface")]) ∧
    DeclareApart repeatingDiamond ∧
      ∃ compiled, (registeredOnly.compile (.ofDefinitions .default repeatingDiamond)
          ["a.A"]).outcome = .ok compiled ∧
        compiled.context.cache.find? "a.A" = some 3 ∧
        (compiled.context.definition 3).sources.map (·.path) = ["l.c", "l.c", "r.c"] := by
  refine ⟨by decide +kernel, by decide +kernel, by decide +kernel, exists_ok_of_any ?_⟩
  decide +kernel

end FrontEnd

end Adl
