import Adl.Proofs.Bundle.Restoration

namespace Adl

open Step Context

/-! Bundles that are compiled again. Every definition is loaded after those that its sub-components
designate, so that it finds them by their names and comes out as it was. -/

/-! ## One load -/

namespace LoadCache

variable {context reached : Context} {name : String} {id : DefinitionId}
  {inner : Loading DefinitionId}

/-- What is not loaded yet is loaded by what is inside, where there is room. -/
theorem around_of_ok (absent : context.cache.find? name = none) (idle : context.loading = [])
    (room : 0 < context.options.maxResolutionDepth)
    (ends : inner { context with loading := [name] } = (.ok id, reached)) :
    around name inner context = (.ok id,
      { reached with
        loading := reached.loading.erase name
        cache := reached.cache.insert name id }) := by
  have ended : Step.ending inner (fun context =>
      { context with loading := context.loading.erase name }) { context with loading := [name] } =
        (.ok id, { reached with loading := reached.loading.erase name }) := by
    simp only [Step.ending, ends]
  refine read_bind rfl ?_
  rw [absent]
  dsimp only
  rw [idle, if_neg (by simp), if_neg (by simpa using Nat.ne_of_gt room)]
  refine (bind_of_ok (show Loading.update _ context = (.ok (), { context with loading := [name] })
    from ?_)).trans ?_
  · rw [Loading.update, idle]
    rfl
  · exact (bind_of_ok ended).trans rfl

end LoadCache

/-! ## The registered bundle -/

/-- Names that are entered in turn with their positions. -/
theorem Table.find?_zipIdx {table : Table Nat} {names : List String}
    (entries : table.entries = names.zipIdx) (distinct : names.Nodup) {name : String} {place : Nat} :
    table.find? name = some place ↔ names[place]? = some name := by
  constructor
  · intro found
    have member := Table.mem_entries_of_find? found
    rw [entries] at member
    exact List.mem_zipIdx_iff_getElem?.mp member
  · intro isName
    refine Table.findEntry_of_mem ?_ ?_
    · rw [entries, List.zipIdx_map_fst]
      exact distinct
    · rw [entries]
      exact List.mem_zipIdx_iff_getElem?.mpr isName

namespace Context

/-- Definitions with different names are registered in their order. -/
theorem ofDefinitions_eq (options : Options) {definitions : List Definition}
    (distinct : (definitions.map (·.name)).Nodup) :
    ofDefinitions options definitions = { ofOptions options with
      arena := definitions.toArray
      registered := ⟨(definitions.map (·.name)).zipIdx⟩ } := by
  have registered : ∀ (added : List Definition) (context : Context),
      (added.map (·.name)).Nodup → (∀ definition ∈ added, context.registered.find? definition.name = none) →
      added.foldl (fun context definition => (context.register definition.name definition).2) context =
        { context with
          arena := context.arena ++ added.toArray
          registered := ⟨context.registered.entries ++
            (added.map (·.name)).zipIdx context.arena.size⟩ } := by
    intro added
    induction added with
    | nil => intro context _ _; simp
    | cons definition rest induction =>
        intro context distinct fresh
        obtain ⟨isNew, distinct⟩ := List.nodup_cons.mp distinct
        obtain ⟨first, others⟩ := List.forall_mem_cons.mp fresh
        rw [List.foldl_cons, induction _ distinct]
        · have entered : (context.register definition.name definition).2.registered.entries =
              context.registered.entries ++ [(definition.name, context.arena.size)] :=
            Table.entries_insert_of_find?_none first _
          rw [entered]
          simp [Context.register, Context.allocate, List.zipIdx_cons]
        · intro other member
          change (context.registered.insert definition.name _).find? other.name = none
          rw [Table.find?_insert, if_neg, others other member]
          exact fun same => isNew (List.mem_map.mpr ⟨other, member, same.symm⟩)
  rw [ofDefinitions, registered definitions _ distinct fun _ _ => rfl]
  simp [ofOptions, Table.empty]

/-- The first definitions of a bundle were loaded again, and the others are registered. -/
structure Reloading (saved : Context) (later : Options) (count : Nat) (context : Context) : Prop where
  options : context.options = later
  loading : context.loading = []
  errors : context.log.errors = []
  cache : context.cache.entries = (saved.cache.keys.take count).zipIdx
  registered : ∀ place name, saved.cache.keys[place]? = some name →
    context.registered.find? name = some place
  within : saved.cache.entries.length ≤ context.arena.size
  restored : ∀ place name id, saved.cache.entries[place]? = some (name, id) → place < count →
    (context.definition place).withoutHandles = (saved.definition id).withoutHandles
  stored : ∀ place name id, saved.cache.entries[place]? = some (name, id) → count ≤ place →
    context.definition place = (saved.definition id).stored
  types : context.KeepsTypes saved

/-- What a bundle keeps of the loaded definitions, in the order of the loads. -/
def bundle (context : Context) : List Definition :=
  context.cache.values.map fun id => (context.definition id).stored

variable {saved : Context} {later : Options}

theorem getElem?_bundle {place : Nat} {name : String} {id : DefinitionId}
    (entry : saved.cache.entries[place]? = some (name, id)) :
    saved.bundle[place]? = some (saved.definition id).stored := by
  rw [bundle, Table.values, List.getElem?_map, List.getElem?_map, entry]
  rfl

/-- Definitions are stored under the names by which they were loaded. -/
theorem Sound.names_bundle {strict : Prop} (sound : saved.Sound strict)
    (silent : saved.log.errors = []) : saved.bundle.map (·.name) = saved.cache.keys := by
  rw [bundle, Table.values, Table.keys, List.map_map, List.map_map]
  refine List.map_congr_left fun entry member => ?_
  have found : saved.cache.find? entry.1 = some entry.2 := Table.findEntry_of_mem sound.keys member
  exact (sound.loaded_names entry.1 entry.2 found).resolve_right fun stopped => stopped.1.2 silent

theorem reloading_ofDefinitions (distinct : saved.cache.keys.Nodup)
    (names : saved.bundle.map (·.name) = saved.cache.keys) :
    Reloading saved later 0 (ofDefinitions later saved.bundle) := by
  rw [ofDefinitions_eq later (names ▸ distinct)]
  refine ⟨rfl, rfl, rfl, rfl, ?_, ?_, nofun, ?_, nofun⟩
  · intro place name isName
    exact (Table.find?_zipIdx (by rw [names]) distinct).mpr isName
  · simp [bundle, Table.values]
  · intro place name id entry _
    have isStored := getElem?_bundle entry
    simp [Context.definition, isStored]

namespace Reloading

variable {frontEnd : FrontEnd} {context : Context} {count : Nat} {name : String} {id : DefinitionId}

theorem find?_cache (reloading : Reloading saved later count context)
    (distinct : saved.cache.keys.Nodup) {name : String} {place : Nat} :
    context.cache.find? name = some place ↔ place < count ∧ saved.cache.keys[place]? = some name := by
  rw [Table.find?_zipIdx reloading.cache (distinct.sublist (List.take_sublist _ _)),
    List.getElem?_take]
  by_cases within : place < count <;> simp [within]

/-- Sub-components find what they designate among the definitions that were loaded before. -/
theorem isFoundIn (reloading : Reloading saved later count context)
    (sound : saved.Sound True) (silent : saved.log.errors = [])
    (entry : saved.cache.entries[count]? = some (name, id)) :
    ∀ component ∈ (saved.definition id).components, component.IsFoundIn context saved := by
  intro component member
  have found : saved.cache.find? name = some id :=
    Table.findEntry_of_mem sound.keys (List.mem_of_getElem? entry)
  cases decorated : component.resolved with
  | none =>
      refine .inl ⟨decorated, ?_⟩
      cases named : component.definition with
      | none => rfl
      | some reference =>
          obtain ⟨resolved, -, isResolved, -⟩ := sound.isFullyResolved silent name id found component
            member (by rw [named]; rfl)
          exact nomatch decorated.symm.trans isResolved
  | some resolved =>
      obtain ⟨earlier, less, target, isTarget, isEarlier⟩ :=
        sound.inCompletionOrder count name id entry component member resolved decorated
      refine .inr ⟨resolved, target, earlier, decorated, isTarget, ?_,
        reloading.restored earlier _ _ isEarlier less⟩
      refine (reloading.find?_cache sound.keys).mpr ⟨less, ?_⟩
      rw [Table.keys, List.getElem?_map, isEarlier]
      rfl

theorem find?_next (reloading : Reloading saved later count context)
    (distinct : saved.cache.keys.Nodup) (isName : saved.cache.keys[count]? = some name) :
    context.cache.find? name = none := by
  cases found : context.cache.find? name with
  | none => rfl
  | some place =>
      obtain ⟨less, other⟩ := (reloading.find?_cache distinct).mp found
      have within : place < saved.cache.keys.length := (List.getElem?_eq_some_iff.mp other).1
      exact absurd ((List.getElem?_inj within distinct).mp (other.trans isName.symm))
        (Nat.ne_of_lt less)

/-- One more definition was restored in its slot and is remembered. -/
theorem next (reloading : Reloading saved later count context)
    (distinct : saved.cache.keys.Nodup) (entry : saved.cache.entries[count]? = some (name, id))
    {trace : Trace} {restored : Definition} {reached : Context}
    (same : restored.withoutHandles = (saved.definition id).withoutHandles)
    (reports : Reports (Context.replace { context with loading := [name], trace } count restored)
      reached)
    (errors : reached.log.errors = context.log.errors) (types : reached.KeepsTypes saved) :
    Reloading saved later (count + 1) { reached with
      loading := reached.loading.erase name
      cache := reached.cache.insert name count } := by
  have isName : saved.cache.keys[count]? = some name := by
    rw [Table.keys, List.getElem?_map, entry]
    rfl
  have within : count < context.arena.size :=
    Nat.lt_of_lt_of_le (List.getElem?_eq_some_iff.mp entry).1 reloading.within
  have own : reached.definition count = restored := (reports.definition count).trans
    (definition_replace { context with loading := [name], trace } restored within)
  have others : ∀ place, count ≠ place → reached.definition place = context.definition place :=
    fun place different => (reports.definition place).trans
      (definition_replace_of_ne { context with loading := [name], trace } restored different)
  refine ⟨reports.options.trans reloading.options, ?_, errors.trans reloading.errors, ?_, ?_, ?_,
    ?_, ?_, types⟩
  · change reached.loading.erase name = []
    rw [reports.loading]
    simp [Context.replace]
  · change (reached.cache.insert name count).entries = _
    rw [Table.entries_insert_of_find?_none (reports.cache ▸ reloading.find?_next distinct isName),
      reports.cache, List.take_add_one, isName, List.zipIdx_append]
    have length : (saved.cache.keys.take count).length = count :=
      List.length_take_of_le (Nat.le_of_lt (List.getElem?_eq_some_iff.mp isName).1)
    rw [length, Nat.zero_add, ← reloading.cache]
    rfl
  · intro place other isOther
    change reached.registered.find? other = some place
    rw [reports.registered]
    exact reloading.registered place other isOther
  · change _ ≤ reached.arena.size
    rw [reports.arena]
    simpa [Context.replace] using reloading.within
  · intro place other target isOther less
    change (reached.definition place).withoutHandles = _
    by_cases current : count = place
    · cases current
      cases entry.symm.trans isOther
      rw [own]
      exact same
    · rw [others place current]
      exact reloading.restored place other target isOther (by omega)
  · intro place other target isOther more
    change reached.definition place = _
    rw [others place (Nat.ne_of_lt more)]
    exact reloading.stored place other target isOther (Nat.le_of_lt more)

/-- The next definition of the bundle is loaded again. -/
theorem load (reloading : Reloading saved later count context)
    (predefined : frontEnd.registry = .predefined) (sound : saved.Sound True)
    (silent : saved.log.errors = []) (room : 0 < later.maxResolutionDepth)
    (entry : saved.cache.entries[count]? = some (name, id))
    (restorable : saved.Restorable frontEnd id) :
    ∃ reached, frontEnd.load name context = (.ok count, reached) ∧
      Reloading saved later (count + 1) reached := by
  have isName : saved.cache.keys[count]? = some name := by
    rw [Table.keys, List.getElem?_map, entry]
    rfl
  have notLoaded : ∀ other, context.cache.find? other ≠ some count := fun other found =>
    Nat.lt_irrefl _ ((reloading.find?_cache sound.keys).mp found).1
  have within : count < context.arena.size :=
    Nat.lt_of_lt_of_le (List.getElem?_eq_some_iff.mp entry).1 reloading.within
  obtain ⟨levels, isRoom⟩ : ∃ levels, FrontEnd.levelsLeft context = levels + 1 := by
    refine Nat.exists_eq_add_one.mpr ?_
    rw [FrontEnd.levelsLeft, reloading.options, reloading.loading]
    exact room
  let busy : Context := { context with loading := [name] }
  obtain ⟨trace, runs⟩ := @FrontEnd.runStages_of_registered busy count frontEnd name
    (frontEnd.loadWithin levels) Stage.all (reloading.registered count name isName)
  let start : Context := { busy with trace }
  have stored : start.definition count = (saved.definition id).stored :=
    reloading.stored count name id entry (Nat.le_refl _)
  obtain ⟨reached, restored, ran, same, reports, errors, types⟩ := Stage.all_of_stored predefined
    (frontEnd.loadWithin levels) name (show count < start.arena.size from within) stored notLoaded
    (reloading.isFoundIn sound silent entry) restorable reloading.types
  refine ⟨_, ?_, reloading.next sound.keys entry same reports errors types⟩
  refine read_bind rfl ?_
  rw [isRoom]
  exact LoadCache.around_of_ok (reloading.find?_next sound.keys isName) reloading.loading
    (reloading.options ▸ room) (runs.trans ((bind_of_ok ran).trans rfl))

/-- The rest of the bundle is loaded again, in the order in which it was loaded before. -/
theorem loadRoots (predefined : frontEnd.registry = .predefined) (sound : saved.Sound True)
    (silent : saved.log.errors = []) (room : 0 < later.maxResolutionDepth)
    (restorable : ∀ id, saved.Loaded id → saved.Restorable frontEnd id) (rest : Nat)
    (reloading : Reloading saved later count context)
    (whole : count + rest = saved.cache.entries.length) (found : List DefinitionId) :
    ∃ reached given, frontEnd.loadRoots (saved.cache.keys.drop count) (context, found) =
        (.ok (), (reached, given)) ∧
      Reloading saved later saved.cache.entries.length reached := by
  induction rest generalizing count context found with
  | zero =>
      have none : saved.cache.keys.drop count = [] := by
        rw [List.drop_eq_nil_iff, Table.keys, List.length_map]
        exact Nat.le_of_eq whole.symm
      rw [none]
      exact ⟨context, found, rfl, whole ▸ reloading⟩
  | succ rest induction =>
      have within : count < saved.cache.entries.length := by omega
      obtain ⟨⟨name, id⟩, entry⟩ : ∃ entry, saved.cache.entries[count]? = some entry :=
        ⟨_, List.getElem?_eq_getElem within⟩
      have isName : saved.cache.keys[count]? = some name := by
        rw [Table.keys, List.getElem?_map, entry]
        rfl
      obtain ⟨inside, isAt⟩ := List.getElem?_eq_some_iff.mp isName
      have loaded : saved.Loaded id :=
        ⟨name, Table.findEntry_of_mem sound.keys (List.mem_of_getElem? entry)⟩
      obtain ⟨reached, loads, further⟩ :=
        reloading.load predefined sound silent room entry (restorable id loaded)
      have root : frontEnd.loadRoot name context = (.ok (some count), reached) := by
        refine (bind_of_ok (show Step.outcome (frontEnd.load name) context = (.ok (.ok count), reached)
          from ?_)).trans rfl
        simp only [Step.outcome, loads]
      obtain ⟨last, given, ends, done⟩ := induction further (by omega) (found ++ [count])
      refine ⟨last, given, ?_, done⟩
      rw [List.drop_eq_getElem_cons inside, isAt]
      exact (bind_of_ok (Drafting.lift_of_ok root)).trans ends

end Reloading

/-- When the whole bundle was loaded, all its definitions are what they were, up to handles. -/
theorem Reloading.definitions {reached : Context}
    (reloading : Reloading saved later saved.cache.entries.length reached) :
    reached.cache.keys = saved.cache.keys ∧
      (reached.cache.values.map reached.definition).map Definition.withoutHandles =
        (saved.cache.values.map saved.definition).map Definition.withoutHandles := by
  have keys : saved.cache.keys.take saved.cache.entries.length = saved.cache.keys := by
    refine List.take_of_length_le ?_
    rw [Table.keys, List.length_map]
  have entries := reloading.cache
  rw [keys] at entries
  refine ⟨by rw [Table.keys, entries, List.zipIdx_map_fst], List.ext_getElem? fun place => ?_⟩
  rw [Table.values, entries, Table.values, Table.keys]
  simp only [List.getElem?_map, List.getElem?_zipIdx, Option.map_map]
  cases entry : saved.cache.entries[place]? with
  | none => rfl
  | some entry' =>
      have within := (List.getElem?_eq_some_iff.mp entry).1
      simpa using reloading.restored place _ _ entry within

end Context

/-! ## Compilations -/

namespace FrontEnd

variable {frontEnd : FrontEnd} {options later : Options} {definitions reloaded : List Definition}
  {roots : List String} {compiled : Compiled}

/-- What a successful compilation of fresh definitions loads can be loaded again, if its type
parameters conform to no types and are declared where they are used. -/
theorem restorable_of_compile (predefined : frontEnd.registry = .predefined)
    (plain : frontEnd.ParsesPlainly)
    (fresh : ∀ definition, definition ∈ definitions ∨ frontEnd.Parses definition → definition.IsFresh)
    (succeeds : (frontEnd.compile (.ofDefinitions options definitions) roots).outcome = .ok compiled)
    (bundled : ∀ definition ∈ compiled.definitions, definition.DeclaresPlaceholders ∧
      ∀ parameter ∈ definition.typeParameters, parameter.conformsTo = none)
    {id : DefinitionId} (loaded : compiled.context.Loaded id) :
    compiled.context.Restorable frontEnd id := by
  have harmless : frontEnd.registry.IsHarmless :=
    predefined ▸ AnnotationRegistry.isHarmless_predefined
  have undecorated : ∀ definition ∈ definitions, ∀ component ∈ definition.components,
      component.resolved = none := fun definition member => (fresh definition (.inl member)).undecorated
  obtain ⟨sound, -, -⟩ := advances_compile harmless (fun _ : True => plain) roots
    (sound_ofDefinitions options definitions fun _ => undecorated) succeeds
  obtain ⟨silent, way, closedOn⟩ := closedOn_of_compile harmless (fun _ : True => plain)
    (fun _ => undecorated) succeeds
  have ⟨name, found⟩ := loaded
  obtain ⟨declares, free⟩ := bundled (compiled.context.definition id)
    (List.mem_map_of_mem (Table.mem_values_of_find? found))
  obtain ⟨_, middle, before, closed⟩ := closedOn id loaded
  exact {
    settled := settled_of_compile predefined plain fresh succeeds loaded free
    typed := closed.isTyped harmless silent
    once := sound.once trivial silent name id found
    apart := way.namesApart harmless (hasSlots_ofDefinitions options definitions)
      (fun id loaded => absurd loaded (not_loaded_ofDefinitions options definitions id)) silent id
      loaded
    free
    declares }

/-- A bundle is a fixpoint of compilation, if its type parameters conform to no types and are
declared where they are used: it is compiled again, whatever the options, to the same definitions
up to handles. -/
theorem bundle_recompiles (frontEnd : FrontEnd) (options later : Options)
    (definitions reloaded : List Definition) (roots : List String)
    (predefined : frontEnd.registry = .predefined) (plain : frontEnd.ParsesPlainly)
    (fresh : ∀ definition, definition ∈ definitions ∨ frontEnd.Parses definition → definition.IsFresh)
    {compiled : Compiled}
    (succeeds : (frontEnd.compile (.ofDefinitions options definitions) roots).outcome = .ok compiled)
    (bundled : ∀ definition ∈ compiled.definitions, definition.DeclaresPlaceholders ∧
      ∀ parameter ∈ definition.typeParameters, parameter.conformsTo = none)
    (packable : (Packed.ofList Definition.packed compiled.definitions).isPackable)
    (decodes : Bundle.decode? (Bundle.encode compiled.definitions) = some reloaded)
    (room : 0 < later.maxResolutionDepth) :
    ∃ again, (frontEnd.compile (.ofDefinitions later reloaded) (reloaded.map (·.name))).outcome =
        .ok again ∧
      again.context.cache.keys = compiled.context.cache.keys ∧
      again.definitions.map Definition.withoutHandles =
        compiled.definitions.map Definition.withoutHandles := by
  have harmless : frontEnd.registry.IsHarmless :=
    predefined ▸ AnnotationRegistry.isHarmless_predefined
  obtain ⟨sound, silent, -⟩ := advances_compile harmless (fun _ : True => plain) roots
    (sound_ofDefinitions options definitions fun _ definition member =>
      (fresh definition (.inl member)).undecorated) succeeds
  have isBundle : reloaded = compiled.context.bundle := by
    rw [Bundle.decode?_encode _ packable] at decodes
    split at decodes
    · rw [← Option.some.inj decodes, Compiled.definitions, List.map_map]
      rfl
    · exact nomatch decodes
  have names := sound.names_bundle silent
  have start : Reloading compiled.context later 0 (.ofDefinitions later compiled.context.bundle) :=
    reloading_ofDefinitions sound.keys names
  obtain ⟨reached, given, ran, reloading⟩ := start.loadRoots predefined sound silent room
    (fun id loaded => restorable_of_compile predefined plain fresh succeeds bundled loaded)
    compiled.context.cache.entries.length (Nat.zero_add _) []
  obtain ⟨keys, same⟩ := reloading.definitions
  rw [isBundle, names]
  refine ⟨⟨{ reached with log := reached.log.cleared }, given, reached.log.warnings⟩, ?_, keys, same⟩
  unfold compile
  rw [show compiled.context.cache.keys.drop 0 = compiled.context.cache.keys from rfl] at ran
  rw [ran]
  dsimp only
  rw [reloading.errors]
  rfl

/-- A composite of a singleton with a parameter and of an instance that holds another one. -/
def stocked : List Definition :=
  let part (name : String) (reference : Reference) : Component :=
    ⟨name, some reference, none, .generated, .none, none, false⟩
  [ { (Definition.ofKind "a.Cell" .primitive).ensureParameter "size" with
      attributes := [⟨"n", "int", some (.reference "size"), .generated, .none⟩]
      annotations := ⟨[.ofType Annotation.singletonKind], []⟩ },
    .ofKind "a.Lid" .primitive,
    { Definition.ofKind "a.Box" .composite with
      typeParameters := [⟨"T", none, .generated⟩]
      components := [⟨"held", none, some "T", .generated, .none, none, false⟩] },
    { Definition.ofKind "a.Top" .composite with
      components :=
        [ part "cell" ⟨"a.Cell", [⟨none, .number 4, .generated⟩], [], .generated, none⟩,
          part "box" ⟨"a.Box", [], [⟨none, .definition (.ofName "a.Lid"), .generated⟩], .generated,
            none⟩ ] } ]

/-- All of it is compiled again, and no load has to wait for another. -/
theorem stock_recompiles :
    ∃ compiled reloaded, (registeredOnly.compile (.ofDefinitions .default stocked)
        ["a.Top"]).outcome = .ok compiled ∧
      compiled.context.cache.keys = ["a.Cell", "a.Cell(size=4)", "a.Box", "a.Lid", "a.Box<a.Lid>",
        "a.Top"] ∧
      Bundle.decode? (Bundle.encode compiled.definitions) = some reloaded ∧
      ∃ again, (registeredOnly.compile (.ofDefinitions { Options.default with maxResolutionDepth := 1 }
          reloaded) (reloaded.map (·.name))).outcome = .ok again ∧
        again.context.cache.keys = compiled.context.cache.keys ∧
        again.definitions.map Definition.withoutHandles =
          compiled.definitions.map Definition.withoutHandles := by
  have succeeds : (registeredOnly.compile (.ofDefinitions .default stocked)
      ["a.Top"]).outcome.toOption.any (fun compiled =>
        compiled.context.cache.keys = ["a.Cell", "a.Cell(size=4)", "a.Box", "a.Lid", "a.Box<a.Lid>",
          "a.Top"] ∧
        (∀ definition ∈ compiled.definitions, definition.DeclaresPlaceholders ∧
          ∀ parameter ∈ definition.typeParameters, parameter.conformsTo = none) ∧
        (Packed.ofList Definition.packed compiled.definitions).isPackable ∧
        Bundle.levels compiled.definitions ≤ Bundle.nestingLimit) = true := by
    decide +kernel
  obtain ⟨compiled, outcome, keys, bundled, packable, shallow⟩ := exists_ok_of_any succeeds
  have decodes := (Bundle.decode?_encode _ packable).trans (if_pos shallow)
  have fresh : ∀ definition ∈ stocked, definition.IsFresh := by decide +kernel
  refine ⟨compiled, _, outcome, keys, decodes, bundle_recompiles registeredOnly .default _ stocked _
    ["a.Top"] rfl parsesPlainly_registeredOnly (fun definition known => ?_) outcome bundled packable
    decodes (by decide)⟩
  rcases known with member | ⟨_, _, _, _, isParser, -⟩
  · exact fresh definition member
  · exact nomatch isParser

/-- A generic composite of which both type parameters conform to one copy of a type. -/
def bounding : List Definition :=
  let bound : Reference := ⟨"a.T", [⟨none, .number 1, .generated⟩], [], .generated, none⟩
  [ (Definition.ofKind "a.T" .type).ensureParameter "size",
    { Definition.ofKind "a.G" .composite with
      typeParameters := [⟨"P", some bound, .generated⟩, ⟨"R", some bound, .generated⟩] } ]

/-- The names of the arguments in the types to which type parameters conform. -/
def boundNames (definition : Definition) : List (Option String) :=
  definition.typeParameters.flatMap fun parameter =>
    (parameter.conformsTo.map fun type => type.arguments.map (·.name)).getD []

theorem boundNames_withoutHandles (definition : Definition) :
    boundNames definition.withoutHandles = boundNames definition := by
  change (definition.typeParameters.map FormalTypeParameter.stored).flatMap _ = _
  rw [List.flatMap_map]
  refine List.flatMap_congr fun parameter _ => ?_
  cases conforms : parameter.conformsTo with
  | none => simp [FormalTypeParameter.stored, conforms]
  | some type =>
      cases type
      simp [FormalTypeParameter.stored, conforms, Reference.stored]

/-- The second type parameter is answered from what references were resolved to, and its argument
gets a name only when the bundle is compiled again. -/
theorem bounds_recompile_differently :
    ∃ compiled reloaded again, (registeredOnly.compile (.ofDefinitions .default bounding)
        ["a.G"]).outcome = .ok compiled ∧
      Bundle.decode? (Bundle.encode compiled.definitions) = some reloaded ∧
      (registeredOnly.compile (.ofDefinitions .default reloaded) (reloaded.map (·.name))).outcome =
        .ok again ∧
      again.definitions.map Definition.withoutHandles ≠
        compiled.definitions.map Definition.withoutHandles := by
  have succeeds : (registeredOnly.compile (.ofDefinitions .default bounding)
      ["a.G"]).outcome.toOption.any (fun compiled =>
        (Packed.ofList Definition.packed compiled.definitions).isPackable ∧
        Bundle.levels compiled.definitions ≤ Bundle.nestingLimit ∧
        (registeredOnly.compile (.ofDefinitions .default (compiled.definitions.map Definition.stored))
          ((compiled.definitions.map Definition.stored).map (·.name))).outcome.toOption.any (fun again =>
            again.definitions.map boundNames ≠ compiled.definitions.map boundNames) = true) =
        true := by
    decide +kernel
  obtain ⟨compiled, outcome, packable, shallow, recompiles⟩ := exists_ok_of_any succeeds
  obtain ⟨again, outcomeAgain, different⟩ := exists_ok_of_any recompiles
  refine ⟨compiled, _, again, outcome, (Bundle.decode?_encode _ packable).trans (if_pos shallow),
    outcomeAgain, fun same => different ?_⟩
  have names : ∀ definitions : List Definition,
      (definitions.map Definition.withoutHandles).map boundNames = definitions.map boundNames := by
    intro definitions
    rw [List.map_map]
    exact List.map_congr_left fun definition _ => boundNames_withoutHandles definition
  exact (names _).symm.trans ((congrArg (List.map boundNames) same).trans (names _))

end FrontEnd

end Adl
