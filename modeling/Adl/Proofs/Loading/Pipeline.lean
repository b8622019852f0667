import Adl.Proofs.Loading.Stages

namespace Adl

open Step Context

/-! Loading keeps what is loaded: a definition is found, made in its own slot and then
loaded under its name, whatever else is loaded in between. -/

variable {strict : Prop} {name : String} {id : DefinitionId} {context : Context}
  {frontEnd : FrontEnd} {Extra : Context → Prop}

/-- What is parsed is not decorated, and what keeps a text from being parsed is an error. -/
structure FrontEnd.ParsesPlainly (frontEnd : FrontEnd) : Prop where
  undecorated : ∀ parse, frontEnd.parser = some parse →
    ∀ name text file definition, parse name text file = .ok definition →
    ∀ component ∈ definition.components, component.resolved = none
  errors : ∀ parse, frontEnd.parser = some parse →
    ∀ name text file diagnostic, parse name text file = .error diagnostic →
    diagnostic.isError = true

/-! ## Finding a definition -/

namespace Sources

/-- The slot for a name is registered for it, or new. -/
def IsSlotOf (context : Context) (name : String) (id : DefinitionId) : Prop :=
  context.registered.find? name = some id ∨ context.arena.size ≤ id

/-- While the name is loading, what was found is the slot that is being made. Where there
is one already, that is found. -/
structure Finds (start : Context) (name : String) (id : DefinitionId) (reached : Context) :
    Prop where
  making : Making name id reached
  slot : IsSlotOf start name id
  known : ∀ other, start.registered.find? name = some other → id = other

theorem agree_store (add : SourceMap → UInt16 × SourceMap) :
    Agree reporting context (store add) (store add) fun _ _ => True :=
  .run rfl trivial { Reports.refl context with } trivial

theorem linked_of_undecorated {definition : Definition}
    (undecorated : ∀ component ∈ definition.components, component.resolved = none) :
    context.Linked definition.links := by
  refine linked_links_iff.mpr fun component member resolved found => ?_
  exact nomatch (undecorated component member).symm.trans found

theorem agree_accept (sound : context.Sound strict) (loading : name ∈ context.loading)
    {definition : Definition} (parses : frontEnd.Parses definition)
    (undecorated : strict → ∀ component ∈ definition.components, component.resolved = none) :
    Agree (evolving frontEnd strict none fun _ => True) context (accept name definition)
      (accept name definition)
      fun id reached => Making name id reached ∧ context.arena.size ≤ id := by
  unfold accept
  split
  · rename_i named
    have pushed := sound.push fun isStrict => linked_of_undecorated (undecorated isStrict)
    have making : Making name context.arena.size
        { context with arena := context.arena.push definition } := by
      refine ⟨?_, ?_, ?_, sound.fresh_loaded, loading⟩
      · change context.arena.size < (context.arena.push definition).size
        rw [Array.size_push]
        exact Nat.lt_succ_self _
      · rw [definition_push_size]
        exact .inl named
      · exact fun other found => absurd found (sound.fresh_registered other)
    exact .run rfl ⟨pushed, trivial⟩ ⟨.push context definition, .parsed .start parses⟩
      ⟨making, Nat.le_refl _⟩
  · exact .fail ⟨sound, trivial⟩ fun _ => LoadError.isGrave_ofDiagnostic _ _ _

theorem agree_parsed (plain : strict → frontEnd.ParsesPlainly) (sound : context.Sound strict)
    (loading : name ∈ context.loading) {parse : SourceParser}
    (isParser : frontEnd.parser = some parse) (add : SourceMap → UInt16 × SourceMap)
    (text : String) (failed : Diagnostic → Loading DefinitionId)
    (fails : ∀ diagnostic context, context.Sound strict →
      (strict → diagnostic.isError = true) →
      Agree (evolving frontEnd strict none fun _ => True) context (failed diagnostic)
        (failed diagnostic) fun _ _ => False) :
    Agree (evolving frontEnd strict none fun _ => True) context
      (do
        let file ← store add
        match parse name text file with
        | .ok definition => accept name definition
        | .error diagnostic => failed diagnostic)
      (do
        let file ← store add
        match parse name text file with
        | .ok definition => accept name definition
        | .error diagnostic => failed diagnostic)
      fun id reached => Making name id reached ∧ context.arena.size ≤ id := by
  have stored : Agree (evolving frontEnd strict none fun _ => True) context (store add) (store add)
      fun _ reached => reached.loading = context.loading ∧ reached.arena = context.arena :=
    ((agree_store add).mono fun _ _ _ reports _ => ⟨reports.loading, reports.arena⟩).reported
      sound trivial fun _ _ _ _ => trivial
  refine .bind stored ?_
  rintro file reached valid _ ⟨sameLoading, sameArena⟩
  split
  · rename_i definition parsed
    rw [← sameArena]
    exact agree_accept valid.1 (sameLoading ▸ loading) ⟨parse, _, _, _, isParser, parsed⟩
      fun isStrict => (plain isStrict).undecorated parse isParser _ _ _ _ parsed
  · rename_i diagnostic refused
    refine (fails diagnostic reached valid.1 fun isStrict =>
      (plain isStrict).errors parse isParser _ _ _ _ refused).mono fun _ _ _ _ => False.elim

theorem agree_dumped (text : String) (diagnostic : Diagnostic) :
    Agree reporting context (dumped text diagnostic) (dumped text diagnostic)
      fun changed _ => changed.isError = diagnostic.isError := by
  refine .read rfl (.bind (agree_store _) ?_)
  intro file reached _ _ _
  dsimp only
  split
  · exact .pure trivial rfl
  · exact .pure trivial rfl

theorem agree_parseRegistered (plain : strict → frontEnd.ParsesPlainly)
    (sound : context.Sound strict) (loading : name ∈ context.loading) (text : String) :
    Agree (evolving frontEnd strict none fun _ => True) context (parseRegistered frontEnd name text)
      (parseRegistered frontEnd name text)
      fun id reached => Making name id reached ∧ context.arena.size ≤ id := by
  unfold parseRegistered
  split
  · exact .fail ⟨sound, trivial⟩ fun _ => LoadError.isGrave_internal _
  · rename_i parse isParser
    refine agree_parsed plain sound loading isParser _ text _ ?_
    intro diagnostic context sound isError
    refine .bind ((agree_dumped text diagnostic).reported sound trivial fun _ _ _ _ => trivial) ?_
    intro changed reached valid _ same
    exact .fail valid fun isStrict => LoadError.isGrave_fatal (same.trans (isError isStrict))

theorem agree_parseLocated (plain : strict → frontEnd.ParsesPlainly)
    (sound : context.Sound strict) (loading : name ∈ context.loading) :
    Agree (evolving frontEnd strict none fun _ => True) context (parseLocated frontEnd name)
      (parseLocated frontEnd name)
      fun id reached => Making name id reached ∧ context.arena.size ≤ id := by
  unfold parseLocated
  split
  · exact .fail ⟨sound, trivial⟩ fun _ => LoadError.isGrave_ofDiagnostic _ _ _
  · exact .fail ⟨sound, trivial⟩ fun _ => LoadError.isGrave_internal _
  · rename_i located parse _ isParser
    refine agree_parsed plain sound loading isParser _ located.text _ ?_
    exact fun diagnostic context sound isError =>
      .fail ⟨sound, trivial⟩ fun isStrict => LoadError.isGrave_fatal (isError isStrict)

theorem agree_find (plain : strict → frontEnd.ParsesPlainly) (sound : context.Sound strict)
    (loading : name ∈ context.loading) (absent : context.cache.find? name = none) :
    Agree (evolving frontEnd strict none fun _ => True) context (find frontEnd name)
      (find frontEnd name) (Finds context name) := by
  refine .read rfl ?_
  split
  · rename_i id registered
    refine .pure ⟨sound, trivial⟩ ⟨⟨sound.registered_lt name id registered,
      sound.registered_names name id registered, ?_, ?_, loading⟩, .inl registered,
      fun other found => Option.some.inj (registered.symm.trans found)⟩
    · exact fun other found => sound.registered_unique other name id found registered
    · intro other found
      rw [sound.loaded_registered other name id found registered] at absent
      exact nomatch absent.symm.trans found
  · rename_i unknown
    have isNew : ∀ id reached, Making name id reached ∧ context.arena.size ≤ id →
        Finds context name id reached := fun _ _ found =>
      ⟨found.1, .inr found.2, fun _ known => nomatch unknown.symm.trans known⟩
    split
    · exact (agree_parseRegistered plain sound loading _).mono fun id reached _ _ => isNew id reached
    · exact (agree_parseLocated plain sound loading).mono fun id reached _ _ => isNew id reached

/-- What was found is to be made. -/
theorem making_of_find (plain : strict → frontEnd.ParsesPlainly) (sound : context.Sound strict)
    (loading : name ∈ context.loading) (absent : context.cache.find? name = none) {reached : Context}
    (finds : find frontEnd name context = (.ok id, reached)) :
    (making frontEnd strict False name (reached.definition id).isGeneric id).Valid reached ∧
      Path frontEnd strict context reached := by
  obtain ⟨⟨reachedSound, -⟩, leads, isMaking, -, -⟩ :=
    (agree_find plain sound loading absent).of_ok finds
  exact ⟨⟨reachedSound, isMaking, isMaking.names, fun _ => rfl,
    fun isStrict => reachedSound.linked_definition isStrict id, fun _ => False.elim⟩, leads.path⟩

end Sources

/-! ## The cache -/

namespace LoadCache

open Sources

/-- What a context is while a name is loading in it. -/
def entering (context : Context) (name : String) : Context :=
  { context with loading := context.loading ++ [name] }

def leaving (context : Context) (name : String) : Context :=
  { context with loading := context.loading.erase name }

/-- States that a load of a name can be in, once it has started: no slot was written but
one for the name. -/
def StartedAt (frontEnd : FrontEnd) (strict : Prop) (start : Context) (name : String)
    (context : Context) : Prop :=
  ∃ own, Advances frontEnd strict own start context ∧ ∀ id, own = some id → IsSlotOf start name id

/-- The discipline of a load inside the cache. -/
def inside (frontEnd : FrontEnd) (strict : Prop) (start : Context) (name : String) :
    Discipline Context where
  Valid context := context.Sound strict ∧ StartedAt frontEnd strict start name context
  Leads _ _ := True
  Fails error := strict → error.IsGrave
  refl _ := trivial
  trans _ _ := trivial

/-- How a load inside the cache ends: with the slot that was made. A slot that was there
before was finished. -/
structure Completes (frontEnd : FrontEnd) (strict : Prop) (start : Context) (name : String)
    (id : DefinitionId) (reached : Context) : Prop where
  making : Making name id reached
  closes : ∃ load, Stage.Closes frontEnd strict load name id start reached
  slot : IsSlotOf start name id
  merged : (reached.definition id).decorations.extendsMerged = true
  once : reached.log.errors = [] → (reached.definition id).typeParameterNames.Nodup
  complete : strict → reached.Complete (reached.definition id).links
  finished : ∀ slot, start.registered.find? name = some slot →
    id = slot ∧ reached.Finished strict (start.definition slot) slot

theorem evolves_leaving {own : Option DefinitionId} {reached : Context}
    (notLoading : name ∉ context.loading) (absent : context.cache.find? name = none)
    (evolves : Evolves own (entering context name) reached)
    (slot : ∀ id, own = some id → IsSlotOf context name id) :
    Evolves none context (leaving reached name) where
  options := evolves.options
  policy := evolves.policy
  errors := evolves.errors
  loading := by
    change reached.loading.erase name = context.loading
    rw [evolves.loading, entering, List.erase_append_right _ notLoading]
    simp
  size := evolves.size
  frame id within _ guarded := by
    refine evolves.frame id within (fun isOwn => ?_) fun other registered => ?_
    · rcases slot id isOwn with registered | beyond
      · rcases guarded name registered with ⟨loaded, cached⟩ | loading
        · exact nomatch absent.symm.trans cached
        · exact notLoading loading
      · exact absurd within (Nat.not_lt.mpr beyond)
    · exact (guarded other registered).imp_right (List.mem_append_left _)
  cache := evolves.cache
  loaded other id found := by
    refine (evolves.loaded other id found).imp_right fun ⟨outside, origin⟩ => ⟨?_, origin⟩
    exact fun member => outside (List.mem_append_left _ member)
  registered := evolves.registered
  fresh := evolves.fresh
  references := evolves.references
  shapes := evolves.shapes

/-- A name that was not loaded is loaded last. -/
theorem evolves_finish {reached : Context} (evolves : Evolves none context reached)
    (notLoading : name ∉ context.loading) (absent : reached.cache.find? name = none)
    (slot : IsSlotOf context name id) :
    Evolves none context { reached with cache := reached.cache.insert name id } :=
  { evolves with
    cache := evolves.cache.trans
      ⟨[(name, id)], (Table.entries_insert_of_find?_none absent id).symm⟩
    loaded := by
      intro other otherId found
      change (reached.cache.insert name id).find? other = some otherId at found
      rw [Table.find?_insert] at found
      split at found
      · rename_i equal
        cases found
        cases equal
        exact .inr ⟨notLoading, slot.imp_left (evolves.registered name id)⟩
      · exact evolves.loaded other otherId found }

/-- A name that is loading stays absent from the cache until its load has ended. -/
theorem absent_of_startedAt {reached : Context} (loading : name ∈ context.loading)
    (absent : context.cache.find? name = none)
    (started : StartedAt frontEnd strict context name reached) :
    reached.cache.find? name = none := by
  obtain ⟨own, ⟨evolves, -⟩, -⟩ := started
  cases found : reached.cache.find? name with
  | none => rfl
  | some id =>
      rcases evolves.loaded name id found with known | ⟨outside, -⟩
      · exact nomatch absent.symm.trans known
      · exact absurd loading outside

theorem around_of_found (inner : Loading DefinitionId)
    (found : context.cache.find? name = some id) :
    around name inner context = (.ok id, context) := by
  refine (Step.bind_of_ok rfl).trans ?_
  rw [found]
  rfl

theorem around_of_loading (inner : Loading DefinitionId)
    (absent : context.cache.find? name = none) (loading : name ∈ context.loading) :
    around name inner context = (.error (cycle context.loading name), context) := by
  refine (Step.bind_of_ok rfl).trans ?_
  rw [absent]
  dsimp only
  rw [if_pos (by simpa using loading)]
  rfl

theorem around_of_full (inner : Loading DefinitionId)
    (absent : context.cache.find? name = none) (notLoading : name ∉ context.loading)
    (full : context.options.maxResolutionDepth ≤ context.loading.length) :
    around name inner context =
      (.error (tooDeep name context.options.maxResolutionDepth), context) := by
  refine (Step.bind_of_ok rfl).trans ?_
  rw [absent]
  dsimp only
  rw [if_neg (by simpa using notLoading), if_pos full]
  rfl

theorem around_of_absent (inner : Loading DefinitionId)
    (absent : context.cache.find? name = none) (notLoading : name ∉ context.loading)
    (room : context.loading.length < context.options.maxResolutionDepth) :
    around name inner context =
      match inner (entering context name) with
      | (.ok id, reached) =>
          (.ok id,
            { leaving reached name with cache := reached.cache.insert name id })
      | (.error error, reached) => (.error error, leaving reached name) := by
  refine (Step.bind_of_ok rfl).trans ?_
  rw [absent]
  dsimp only
  rw [if_neg (by simpa using notLoading), if_neg (Nat.not_le.mpr room)]
  refine (Step.bind_of_ok rfl).trans ?_
  rcases outcome : inner (entering context name) with ⟨result, reached⟩
  have ended : Step.ending inner
      (fun context => { context with loading := context.loading.erase name })
      (entering context name) = (result, leaving reached name) := by
    simp only [Step.ending, outcome]
    rfl
  cases result with
  | ok id => exact (Step.bind_of_ok ended).trans rfl
  | error error => exact Step.bind_of_error ended

/-- How a load that was not answered from the cache succeeds. -/
theorem ok_of_around {inner : Loading DefinitionId} {final : Context}
    (absent : context.cache.find? name = none)
    (ends : around name inner context = (.ok id, final)) :
    ∃ reached, inner (entering context name) = (.ok id, reached) ∧
      final = { leaving reached name with cache := reached.cache.insert name id } := by
  by_cases loading : name ∈ context.loading
  · rw [around_of_loading inner absent loading] at ends
    cases ends
  · by_cases room : context.loading.length < context.options.maxResolutionDepth
    · rw [around_of_absent inner absent loading room] at ends
      rcases outcome : inner (entering context name) with ⟨result, reached⟩
      rw [outcome] at ends
      cases result with
      | error error => cases ends
      | ok made =>
          cases ends
          exact ⟨reached, rfl, rfl⟩
    · rw [around_of_full inner absent loading (Nat.le_of_not_lt room)] at ends
      cases ends

/-- What was answered fits where more names are loaded. -/
theorem isFitting_finish {reference : Reference} {scope : Option DefinitionId} {reached : Context}
    {target : DefinitionId} (sound : reached.Sound strict)
    (absent : reached.cache.find? name = none)
    (fitting : Resolver.IsFitting strict reference scope target reached) :
    Resolver.IsFitting strict reference scope target
      { leaving reached name with cache := reached.cache.insert name id } := by
  have kept : ∀ known other, reached.cache.find? known = some other →
      (reached.cache.insert name id).find? known = some other := by
    intro known other found
    have different : name ≠ known := by
      rintro rfl
      exact nomatch absent.symm.trans found
    exact (Table.find?_insert ..).trans ((if_neg different).trans found)
  have stays : ∀ other, reached.Loaded other →
      { leaving reached name with cache := reached.cache.insert name id }.Loaded other :=
    fun other ⟨known, found⟩ => ⟨known, kept known other found⟩
  refine ⟨⟨stays target fitting.loaded, fun isStrict separates spells => kept _ target
    (fitting.spelled isStrict ⟨separates.silent, separates.separated⟩ spells)⟩,
    fun isStrict clear => fitting.generic isStrict ?_⟩
  exact clear.earlier clear.1 (Nat.le_refl _)
    (fun other loaded => ⟨sound.within loaded, stays other loaded⟩) fun _ _ => ⟨rfl, rfl⟩

theorem finished_finish {original : Definition} {slot : DefinitionId} {reached : Context}
    (sound : reached.Sound strict) (absent : reached.cache.find? name = none)
    (finished : reached.Finished strict original slot) :
    Finished strict original slot
      { leaving reached name with cache := reached.cache.insert name id } where
  complete := finished.complete
  merged := finished.merged
  completed originally :=
    have completed := finished.completed originally
    ⟨completed.typeParameters, completed.extendsMerged,
      completed.components.imp fun _ _ follows =>
        { follows with
          found := fun unresolved reference isDefinition target isTarget =>
            (follows.found unresolved reference isDefinition target isTarget).imp_left
              (isFitting_finish sound absent) }⟩
  declares := finished.declares
  once := finished.once

theorem agree_around (lasts : Lasts frontEnd strict Extra) (sound : context.Sound strict) (extra : Extra context)
    {inner twin : Loading DefinitionId}
    (agree : name ∉ context.loading → context.cache.find? name = none →
      Agree (inside frontEnd strict (entering context name) name) (entering context name) inner twin
        (Completes frontEnd strict (entering context name) name)) :
    Agree (evolving frontEnd strict none Extra) context (around name inner) (around name twin)
      fun id reached => reached.cache.find? name = some id := by
  have valid : (evolving frontEnd strict none Extra).Valid context := ⟨sound, extra⟩
  have failing : ∀ {error : LoadError}, error.IsGrave →
      (∀ inner, around name inner context = (.error error, context)) →
      Agree (evolving frontEnd strict none Extra) context (around name inner) (around name twin)
        fun id reached => reached.cache.find? name = some id :=
    fun grave fails => .of_eq (fails inner) (fails twin) (.fail valid fun _ => grave)
  cases found : context.cache.find? name with
  | some id =>
      exact .of_eq (around_of_found inner found) (around_of_found twin found) (.pure valid found)
  | none =>
      by_cases loading : name ∈ context.loading
      · exact failing (LoadError.isGrave_ofDiagnostic _ _ _)
          fun inner => around_of_loading inner found loading
      · by_cases room : context.loading.length < context.options.maxResolutionDepth
        · have ran := agree loading found
          have same := ran.same
          have ended := ran.ended
          obtain ⟨reachedSound, own, ⟨evolves, path⟩, slot⟩ := ran.valid
          have entered : name ∈ (entering context name).loading :=
            List.mem_append_right _ List.mem_cons_self
          have absent := absent_of_startedAt entered found ⟨own, ⟨evolves, path⟩, slot⟩
          have starts : Path frontEnd strict context (entering context name) := .loading _ .start
          have leftRun := around_of_absent inner found loading room
          have rightRun := around_of_absent twin found loading room
          have leaves := evolves_leaving loading found evolves slot
          rw [← same] at rightRun
          rcases outcome : inner (entering context name) with ⟨result, reached⟩
          rw [outcome] at leftRun rightRun ended reachedSound absent leaves path
          cases result with
          | error error =>
              have advances : Advances frontEnd strict none context (leaving reached name) :=
                ⟨leaves, .loading _ (starts.trans path)⟩
              exact ⟨leftRun.trans rightRun.symm, leftRun ▸
                ⟨reachedSound.loading _, lasts advances extra⟩, leftRun ▸ advances,
                leftRun ▸ ended⟩
          | ok id =>
              obtain ⟨load, earlier, middle, pathEarlier, pathMiddle, making, grew, run⟩ :=
                ended.closes
              have finishes := evolves_finish leaves loading absent ended.slot
              have advances : Advances frontEnd strict none context
                  { leaving reached name with cache := reached.cache.insert name id } :=
                ⟨finishes, .loading _ (.finished (starts.trans pathEarlier)
                  (starts.trans pathMiddle) (starts.trans path) making grew ended.making absent run)⟩
              have loaded : (reached.cache.insert name id).find? name = some id := by simp
              have finished :=
                reachedSound.finish ended.making absent ended.merged (fun _ => ended.once)
                  ended.complete
              exact ⟨leftRun.trans rightRun.symm, leftRun ▸
                ⟨finished.loading _, lasts advances extra⟩, leftRun ▸ advances,
                leftRun ▸ loaded⟩
        · exact failing (LoadError.isGrave_ofDiagnostic _ _ _)
            fun inner => around_of_full inner found loading (Nat.le_of_not_lt room)

end LoadCache

/-! ## Loading -/

namespace FrontEnd

open LoadCache Sources

/-- Other stages that may take the place of those of a front end, for each slot, from what is known
once it is found. -/
structure Replaceable (frontEnd : FrontEnd) (strict : Prop) (start : Context) (name : String)
    (load : String → Loading DefinitionId) (Attended : DefinitionId → Context → Prop)
    (twin : DefinitionId → String → Loading DefinitionId)
    (other : DefinitionId → Stage → Loading Unit) : Prop where
  attends : ∀ id, Attends frontEnd strict name id (Attended id)
  loads : ∀ id, Loads frontEnd strict (Attended id) load (twin id)
  mirrors : ∀ id generic,
    Stage.Mirrors frontEnd strict name generic id (Attended id) load (twin id) (other id)
  starts : ∀ id reached, Making name id reached → Advances frontEnd strict none start reached →
    Attended id reached

/-- From a state that only reports led to, a definition is found and made. -/
theorem agree_findAndMake (harmless : frontEnd.registry.IsHarmless)
    (plain : strict → frontEnd.ParsesPlainly) {load : String → Loading DefinitionId} {start : Context}
    {Attended : DefinitionId → Context → Prop}
    {twin : DefinitionId → String → Loading DefinitionId}
    {other : DefinitionId → Stage → Loading Unit}
    (replaceable : Replaceable frontEnd strict start name load Attended twin other)
    (startSound : start.Sound strict) (sound : context.Sound strict) (reports : Reports start context)
    (loading : name ∈ start.loading) (absent : start.cache.find? name = none) :
    Agree (inside frontEnd strict start name) context
      (do
        let id ← find frontEnd name
        Stage.all.forM (Stage.run frontEnd load name id)
        return id)
      (do
        let id ← find frontEnd name
        Stage.all.forM (other id)
        return id)
      (Completes frontEnd strict start name) := by
  have found : Agree (inside frontEnd strict start name) context (find frontEnd name)
      (find frontEnd name) fun id reached =>
        Finds start name id reached ∧ Advances frontEnd strict none start reached := by
    refine ((agree_find plain sound (reports.loading ▸ loading)
      (reports.cache ▸ absent)).mono ?_).under ?_ (fun _ _ _ => trivial) fun _ fails => fails
    · rintro id reached - leads ⟨making, slot, known⟩
      refine ⟨⟨making, ?_, reports.registered ▸ known⟩, reports.advances.trans leads⟩
      unfold IsSlotOf at slot ⊢
      rwa [reports.registered, reports.arena] at slot
    · exact fun reached valid leads => ⟨valid.1, none, reports.advances.trans leads, nofun⟩
  refine .bind found ?_
  rintro id reached ⟨sound, -⟩ - ⟨⟨making, slot, known⟩, advances⟩
  have valid : (Context.making frontEnd strict False name (reached.definition id).isGeneric id).Valid
      reached :=
    ⟨sound, making, making.names, fun _ => rfl, fun isStrict => sound.linked_definition isStrict id,
      fun _ => False.elim⟩
  have kept : start.registered.find? name = some id →
      reached.definition id = start.definition id := by
    intro registered
    refine advances.frame id (startSound.registered_lt name id registered) nofun ?_
    intro other isOther
    exact .inr (startSound.registered_unique name other id registered isOther ▸ loading)
  have made : Agree (inside frontEnd strict start name) reached
      (Stage.all.forM (Stage.run frontEnd load name id))
      (Stage.all.forM (other id))
      fun _ final => Completes frontEnd strict start name id final := by
    refine ((Stage.agree_runAll harmless (replaceable.attends id) (replaceable.loads id)
      (replaceable.mirrors id _) (replaceable.starts id reached making advances) valid).mono ?_).under ?_
      (fun _ _ _ => trivial) fun _ fails => fails
    · rintro _ final valid _ ⟨finished, earlier, middle, pathEarlier, path, makingMiddle, grew, run⟩
      refine ⟨valid.2.1, ⟨load, earlier, middle, advances.path.trans pathEarlier,
        advances.path.trans path, makingMiddle, grew, run⟩, slot,
        finished.merged, finished.once, finished.complete, fun other registered => ?_⟩
      cases known other registered
      exact ⟨rfl, kept registered ▸ finished⟩
    · refine fun final valid leads => ⟨valid.1, some id, advances.weaken.trans leads, ?_⟩
      rintro other isOwn
      cases isOwn
      exact slot
  refine .bind made ?_
  intro _ final valid _ completes
  exact .pure valid completes

theorem agree_runStages (harmless : frontEnd.registry.IsHarmless)
    (plain : strict → frontEnd.ParsesPlainly) {load : String → Loading DefinitionId}
    {Attended : DefinitionId → Context → Prop}
    {twin : DefinitionId → String → Loading DefinitionId}
    {other : DefinitionId → Stage → Loading Unit}
    (replaceable : Replaceable frontEnd strict context name load Attended twin other)
    (startSound : context.Sound strict) (loading : name ∈ context.loading) (absent : context.cache.find? name = none) :
    Agree (inside frontEnd strict context name) context
      (frontEnd.runStages load Stage.all name)
      (do
        if frontEnd.countsLoads then
          Loading.update (·.countLoad name)
        let id ← find frontEnd name
        Stage.all.forM (other id)
        return id)
      (Completes frontEnd strict context name) := by
  unfold runStages
  dsimp only
  split
  · have reports : Reports context (context.countLoad name) := { Reports.refl context with }
    have sound := startSound.ofReports reports
    refine .through (fun _ reached => Reports context reached)
      (.run rfl ⟨sound, none, reports.advances, nofun⟩ trivial reports) ?_
    intro _ reached valid _ reports
    exact agree_findAndMake harmless plain replaceable startSound valid.1 reports loading absent
  · exact agree_findAndMake harmless plain replaceable startSound startSound (.refl context) loading absent

/-- Before a definition is looked for, its load is counted at most. -/
theorem exists_runStages (load : String → Loading DefinitionId) (stages : List Stage) (name : String)
    (context : Context) : ∃ trace, frontEnd.runStages load stages name context = (do
      let id ← find frontEnd name
      stages.forM (Stage.run frontEnd load name id)
      return id : Loading DefinitionId) { context with trace } := by
  unfold runStages
  dsimp only
  split
  · exact ⟨(context.countLoad name).trace, Step.bind_of_ok rfl⟩
  · exact ⟨context.trace, rfl⟩

/-! ## Guarded loads -/

/-- A step that must leave a slot as it is: where it does not, a given error takes the
place of its outcome. -/
noncomputable def guarding {α : Type} (id : DefinitionId) (violation : LoadError)
    (step : Loading α) : Loading α := fun context =>
  open Classical in
  if (step context).2.definition id = context.definition id then step context
  else (.error violation, (step context).2)

/-- Loading where each load that a stage asks for must leave alone the slot which the stage
works on. -/
noncomputable def loadGuarded (frontEnd : FrontEnd) (violation : LoadError) :
    Nat → String → Loading DefinitionId
  | 0, name => LoadCache.around name do
      let context ← Loading.context
      Step.fail (LoadCache.tooDeep name context.options.maxResolutionDepth)
  | levels + 1, name =>
      LoadCache.around name do
        if frontEnd.countsLoads then
          Loading.update (·.countLoad name)
        let id ← find frontEnd name
        Stage.all.forM (Stage.run frontEnd
          (fun name => guarding id violation (frontEnd.loadGuarded violation levels name)) name id)
        return id

theorem loads_guarding {load twin : String → Loading DefinitionId} (violation : LoadError)
    (loads : Loads frontEnd strict (Making name id) load twin) :
    Loads frontEnd strict (Making name id) load fun name => guarding id violation (twin name) := by
  intro other context sound making
  have agree := loads other context sound making
  have kept : (twin other context).2.definition id = context.definition id := by
    rw [← agree.same]
    exact making.definition (Advances.toEvolves agree.leads)
  have unguarded : guarding id violation (twin other) context = twin other context := by
    unfold guarding
    rw [if_pos kept]
  exact agree.of_eq rfl unguarded

/-- Stages may load in their own ways, as long as these come to the same. -/
theorem replaceable_of_loads (harmless : frontEnd.registry.IsHarmless)
    {load : String → Loading DefinitionId} {twin : DefinitionId → String → Loading DefinitionId}
    (loads : ∀ id, Loads frontEnd strict (Making name id) load (twin id)) :
    Replaceable frontEnd strict context name load (Making name) twin
      fun id => Stage.run frontEnd (twin id) name id where
  attends id := attends_making frontEnd strict name id
  loads := loads
  mirrors id _ := Stage.mirrors_run harmless (attends_making frontEnd strict name id) (loads id)
  starts _ _ making _ := making

theorem agree_withoutRoom (lasts : Lasts frontEnd strict Extra) (sound : context.Sound strict)
    (extra : Extra context) :
    Agree (evolving frontEnd strict none Extra) context
      (LoadCache.around name do
        let context ← Loading.context
        Step.fail (LoadCache.tooDeep name context.options.maxResolutionDepth))
      (LoadCache.around name do
        let context ← Loading.context
        Step.fail (LoadCache.tooDeep name context.options.maxResolutionDepth))
      fun id reached => reached.cache.find? name = some id := by
  refine agree_around lasts sound extra fun _ _ => .read rfl (.fail ⟨sound.loading _, none, ?_⟩ ?_)
  · exact ⟨.refl _, nofun⟩
  · exact fun _ => LoadError.isGrave_ofDiagnostic _ _ _

/-- Loading keeps what is loaded, and no load that a stage asks for touches the slot which
the stage works on. -/
theorem loads_loadGuarded (harmless : frontEnd.registry.IsHarmless)
    (plain : strict → frontEnd.ParsesPlainly) (violation : LoadError) (levels : Nat)
    (lasts : Lasts frontEnd strict Extra) :
    Loads frontEnd strict Extra (frontEnd.loadWithin levels) (frontEnd.loadGuarded violation levels) := by
  induction levels generalizing Extra with
  | zero => exact fun name context sound extra => agree_withoutRoom lasts sound extra
  | succ levels induction =>
      intro name context sound extra
      refine agree_around lasts sound extra fun _ absent => ?_
      exact agree_runStages harmless plain (replaceable_of_loads harmless fun id =>
          loads_guarding violation (induction (attends_making _ _ name id).lasts))
        (sound.loading _) (List.mem_append_right _ List.mem_cons_self) absent

/-- A registered definition that is loaded is finished in its slot. -/
theorem finished_of_loadWithin (harmless : frontEnd.registry.IsHarmless)
    (plain : strict → frontEnd.ParsesPlainly) {levels : Nat} {slot : DefinitionId}
    {final : Context} (sound : context.Sound strict)
    (registered : context.registered.find? name = some slot)
    (absent : context.cache.find? name = none)
    (ends : frontEnd.loadWithin levels name context = (.ok id, final)) :
    id = slot ∧ final.Finished strict (context.definition slot) slot := by
  cases levels with
  | zero =>
      obtain ⟨reached, fails, -⟩ := ok_of_around absent ends
      cases fails
  | succ levels =>
      obtain ⟨reached, made, rfl⟩ := ok_of_around absent ends
      have loads (id : DefinitionId) : Loads frontEnd strict (Making name id) (frontEnd.loadWithin levels)
          (frontEnd.loadGuarded .aborted levels) :=
        loads_loadGuarded harmless plain .aborted levels (attends_making _ _ name id).lasts
      have entered : name ∈ (entering context name).loading :=
        List.mem_append_right _ List.mem_cons_self
      have enteredSound : (entering context name).Sound strict := sound.loading _
      have ran := agree_runStages harmless plain (replaceable_of_loads harmless loads) enteredSound entered absent
      have ended := ran.ended
      obtain ⟨reachedSound, started⟩ := ran.valid
      rw [made] at ended reachedSound started
      obtain ⟨same, finished⟩ := ended.finished slot registered
      exact ⟨same, finished_finish reachedSound (absent_of_startedAt entered absent started)
        finished⟩

end FrontEnd

end Adl
