import Adl.Proofs.Definition.Spelling
import Adl.Proofs.Loading.Distinction

namespace Adl

/-! What holds of every state of a compilation. Names and slots match one to one. Under
the strict reading, which is that of compilations that only load, also every decoration of
a sub-component designates a loaded definition that can be instantiated. -/

/-- What a sub-component designates, and whether it names a definition at all. -/
def Component.link (component : Component) : Option Resolved × Bool :=
  (component.resolved, component.definition.isSome)

/-- What its resolution starts from: a sub-component that has a decoration keeps it. -/
def Component.outline (component : Component) : String × Option String × Option Reference :=
  (component.name, component.typeParameter,
    if component.resolved.isSome then none else component.definition)

namespace Definition

/-- What is left of a definition whose compilation stopped while parents were merged. -/
def blank (extendsMerged : Bool) : Definition :=
  { bare "" .empty with decorations := { Decorations.none with extendsMerged } }

def IsBlank (definition : Definition) : Prop :=
  ∃ extendsMerged, definition = blank extendsMerged

theorem IsBlank.isType {definition : Definition} (isBlank : definition.IsBlank) :
    definition.isType = true := by
  obtain ⟨extendsMerged, rfl⟩ := isBlank
  change (DefinitionKind.ofCapabilities .empty == .type) = true
  decide

def links (definition : Definition) : List (Option Resolved × Bool) :=
  definition.components.map Component.link

def outlines (definition : Definition) : List (String × Option String × Option Reference) :=
  definition.components.map Component.outline

def typeParameterNames (definition : Definition) : List String :=
  definition.typeParameters.map (·.name)

/-- One definition has the name, the type parameters and the sub-components of another, as
far as these have a decoration or are to be given one. -/
structure Keeps (changed original : Definition) : Prop where
  name : changed.name = original.name
  typeParameters : changed.typeParameterNames = original.typeParameterNames
  extendsMerged : changed.decorations.extendsMerged = original.decorations.extendsMerged
  links : changed.links = original.links
  outlines : changed.outlines = original.outlines

namespace Keeps

variable {first second third : Definition}

theorem refl (definition : Definition) : Keeps definition definition :=
  ⟨rfl, rfl, rfl, rfl, rfl⟩

theorem symm (keeps : Keeps first second) : Keeps second first :=
  ⟨keeps.name.symm, keeps.typeParameters.symm, keeps.extendsMerged.symm, keeps.links.symm,
    keeps.outlines.symm⟩

theorem trans (left : Keeps first second) (right : Keeps second third) : Keeps first third :=
  ⟨left.name.trans right.name, left.typeParameters.trans right.typeParameters,
    left.extendsMerged.trans right.extendsMerged, left.links.trans right.links,
    left.outlines.trans right.outlines⟩

/-- The sub-components are the same, or their annotations differ. -/
theorem of_components (name : first.name = second.name)
    (typeParameters : first.typeParameters = second.typeParameters)
    (decorations : first.decorations.extendsMerged = second.decorations.extendsMerged)
    (components : first.components = second.components) : Keeps first second :=
  ⟨name, congrArg (List.map _) typeParameters, decorations, congrArg (List.map _) components,
    congrArg (List.map _) components⟩

theorem isGeneric (keeps : Keeps first second) : first.isGeneric = second.isGeneric := by
  have same := congrArg List.isEmpty keeps.typeParameters
  rw [typeParameterNames, typeParameterNames, List.isEmpty_map, List.isEmpty_map] at same
  rw [Definition.isGeneric, Definition.isGeneric, same]

end Keeps

end Definition

namespace Context

/-! ## Names and decorations -/

/-- A definition that was stored for a name bears it, or is what a stop has left. -/
def Names (context : Context) (name : String) (definition : Definition) : Prop :=
  definition.name = name ∨
    (context.log.policy = .failFast ∧ context.log.errors ≠ []) ∧ definition.IsBlank

/-- The key belongs to a definition that is generic. -/
def IsKeyOfGeneric (context : Context) (key : String) : Prop :=
  ∃ scope < context.arena.size, (context.definition scope).isGeneric = true ∧
    ∃ text, key = (context.definition scope).name ++ "|" ++ text

/-- The key is that of a reference; where this spells a name, the definition is loaded under it. -/
def IsKeyOfName (context : Context) (key : String) (id : DefinitionId) : Prop :=
  ∃ scope < context.arena.size, ∃ reference : Reference,
    key = (context.definition scope).name ++ "|" ++ reference.text ∧
      (SpellsName reference.text.toList → context.cache.find? reference.text = some id)

/-- The decoration names a loaded definition, which is neither a type nor abstract. -/
def Designates (context : Context) (resolved : Resolved) : Prop :=
  ∃ id, resolved.id = some id ∧ context.cache.find? resolved.name = some id ∧
    (context.definition id).isType = false ∧ (context.definition id).isAbstract = false

def Linked (context : Context) (links : List (Option Resolved × Bool)) : Prop :=
  ∀ link ∈ links, ∀ resolved, link.1 = some resolved → context.Designates resolved

/-- Sub-components that name a definition designate one, unless errors were reported. -/
def Complete (context : Context) (links : List (Option Resolved × Bool)) : Prop :=
  ∀ link ∈ links, link.2 = true → link.1.isSome ∨ context.log.errors ≠ []

/-- The decorations designate definitions that come before a position of the cache. -/
def Ordered (context : Context) (position : Nat) (links : List (Option Resolved × Bool)) :
    Prop :=
  ∀ link ∈ links, ∀ resolved, link.1 = some resolved →
    ∃ earlier < position, ∃ id, resolved.id = some id ∧
      context.cache.entries[earlier]? = some (resolved.name, id)

/-! ## The invariant -/

structure Sound (strict : Prop) (context : Context) : Prop where
  keys : context.cache.keys.Nodup
  registered_lt : ∀ name id, context.registered.find? name = some id → id < context.arena.size
  registered_unique : ∀ name other id, context.registered.find? name = some id →
    context.registered.find? other = some id → name = other
  registered_names : ∀ name id, context.registered.find? name = some id →
    context.Names name (context.definition id)
  loaded_lt : ∀ name id, context.cache.find? name = some id → id < context.arena.size
  loaded_unique : ∀ name other id, context.cache.find? name = some id →
    context.cache.find? other = some id → name = other
  loaded_names : ∀ name id, context.cache.find? name = some id →
    context.Names name (context.definition id)
  loaded_registered : ∀ name other id, context.cache.find? name = some id →
    context.registered.find? other = some id → other = name
  remembered : ∀ key id, context.references.find? key = some id → context.Loaded id
  merged : ∀ name id, context.cache.find? name = some id →
    (context.definition id).decorations.extendsMerged = true
  keyed : strict → context.IsClear → ∀ key id, context.references.find? key = some id →
    (context.definition id).isGeneric = true → context.IsKeyOfGeneric key
  spelled : strict → context.SeparatesKeys → ∀ key id, context.references.find? key = some id →
    context.IsKeyOfName key id
  once : strict → context.log.errors = [] → ∀ name id, context.cache.find? name = some id →
    (context.definition id).typeParameterNames.Nodup
  linked : strict → ∀ id < context.arena.size, context.Linked (context.definition id).links
  complete : strict → ∀ name id, context.cache.find? name = some id →
    context.Complete (context.definition id).links
  ordered : strict → ∀ position name id,
    context.cache.entries[position]? = some (name, id) →
    context.Ordered position (context.definition id).links

/-- The slot is the one that is being made for the name. -/
structure Making (name : String) (id : DefinitionId) (context : Context) : Prop where
  within : id < context.arena.size
  names : context.Names name (context.definition id)
  registered : ∀ other, context.registered.find? other = some id → other = name
  notLoaded : ∀ other, context.cache.find? other ≠ some id
  loading : name ∈ context.loading

section Lasting

variable {strict : Prop} {own : Option DefinitionId} {before after : Context}
  {name : String} {id : DefinitionId}

theorem Names.lasts {definition : Definition} (evolves : Evolves own before after)
    (names : before.Names name definition) : after.Names name definition :=
  names.imp_right fun stopped =>
    ⟨⟨evolves.policy.trans stopped.1.1, evolves.errors_ne_nil stopped.1.2⟩, stopped.2⟩

/-- As long as there are no errors a definition bears the name that it was stored for. -/
theorem Names.eq_of_silent {context : Context} {definition : Definition}
    (names : context.Names name definition) (silent : context.log.errors = []) :
    definition.name = name :=
  names.resolve_right fun stopped => stopped.1.2 silent

/-- Where there is something to do the definition bears its name. -/
theorem Names.named {context : Context} {definition : Definition}
    (names : context.Names name definition) (guard : Definition → Bool)
    (onBlank : ∀ extendsMerged, guard (.blank extendsMerged) = false)
    (holds : guard definition = true) : definition.name = name := by
  rcases names with named | ⟨-, extendsMerged, rfl⟩
  · exact named
  · exact nomatch (onBlank extendsMerged).symm.trans holds

theorem IsKeyOfGeneric.lasts {key : String} (evolves : Evolves own before after)
    (silent : after.log.errors = []) (isKey : before.IsKeyOfGeneric key) :
    after.IsKeyOfGeneric key := by
  obtain ⟨scope, within, generic, text, equal⟩ := isKey
  obtain ⟨sameName, sameShape⟩ := evolves.shapes silent scope within
  exact ⟨scope, Nat.lt_of_lt_of_le within evolves.size, sameShape ▸ generic, text,
    sameName ▸ equal⟩

theorem IsKeyOfName.lasts {key : String} (evolves : Evolves own before after)
    (silent : after.log.errors = []) (isKey : before.IsKeyOfName key id) :
    after.IsKeyOfName key id := by
  obtain ⟨scope, within, reference, equal, spelled⟩ := isKey
  refine ⟨scope, Nat.lt_of_lt_of_le within evolves.size, reference, ?_, fun spells =>
    evolves.find?_cache (spelled spells)⟩
  rw [(evolves.shapes silent scope within).1, equal]

theorem Sound.protects (sound : before.Sound strict) (loaded : before.Loaded id) :
    before.Protects id := by
  obtain ⟨name, found⟩ := loaded
  intro other registered
  rw [sound.loaded_registered name other id found registered]
  exact .inl ⟨id, found⟩

theorem Sound.within (sound : before.Sound strict) (loaded : before.Loaded id) :
    id < before.arena.size :=
  sound.loaded_lt _ id loaded.choose_spec

theorem Sound.isClear (sound : before.Sound strict) (evolves : Evolves own before after)
    (clear : after.IsClear) : before.IsClear :=
  clear.earlier (evolves.errors_eq_nil clear.1) evolves.size
    (fun _ loaded => ⟨sound.within loaded, loaded.lasts evolves⟩) (evolves.shapes clear.1)

/-- Names tell apart what they do by the slots and the loaded names alone. -/
theorem Sound.isClear_of_same (sound : before.Sound strict) (clear : after.IsClear)
    (arena : after.arena = before.arena) (cache : after.cache = before.cache)
    (errors : after.log.errors = before.log.errors) : before.IsClear := by
  have same : ∀ id, after.definition id = before.definition id := by
    intro id
    rw [Context.definition, Context.definition, arena]
  refine clear.earlier (errors ▸ clear.1) (Nat.le_of_eq (congrArg Array.size arena.symm))
    (fun id loaded => ⟨sound.within loaded, loaded.imp fun _ found => cache ▸ found⟩) ?_
  intro id _
  rw [same]
  exact ⟨rfl, rfl⟩

/-- What is remembered keeps its place: only the keys of generic definitions give ones. -/
theorem Sound.isKeyOfGeneric (sound : before.Sound strict) (isStrict : strict)
    (evolves : Evolves own before after) (clear : after.IsClear) {key : String}
    (found : before.references.find? key = some id)
    (generic : (after.definition id).isGeneric = true) : after.IsKeyOfGeneric key := by
  have shape := (evolves.shapes clear.1 id (sound.within (sound.remembered key id found))).2
  exact (sound.keyed isStrict (sound.isClear evolves clear) key id found
    (shape ▸ generic)).lasts evolves clear.1

/-- What is remembered keeps its place under the name that a reference spells. -/
theorem Sound.isKeyOfName (sound : before.Sound strict) (isStrict : strict)
    (evolves : Evolves own before after) (separates : after.SeparatesKeys) {key : String}
    (found : before.references.find? key = some id) : after.IsKeyOfName key id :=
  (sound.spelled isStrict (separates.earlier evolves) key id found).lasts evolves separates.silent

theorem Making.protects (making : Making name id before) : before.Protects id :=
  fun other registered => .inr (making.registered other registered ▸ making.loading)

theorem Making.ne_of_loaded {other : DefinitionId} (making : Making name id before)
    (loaded : before.Loaded other) : id ≠ other := by
  rintro rfl
  obtain ⟨loadedName, found⟩ := loaded
  exact making.notLoaded loadedName found

/-- Loaded definitions stay as they are. -/
theorem Sound.definition_of_loaded (sound : before.Sound strict)
    (evolves : Evolves own before after) (foreign : own ≠ some id)
    (loaded : before.Loaded id) : after.definition id = before.definition id :=
  evolves.frame id (sound.loaded_lt _ id loaded.choose_spec) foreign (sound.protects loaded)

/-- The slot under work stays as it is while other definitions are loaded. -/
theorem Making.lasts (evolves : Evolves none before after) (making : Making name id before) :
    Making name id after where
  within := Nat.lt_of_lt_of_le making.within evolves.size
  names := by
    rw [evolves.frame id making.within nofun making.protects]
    exact making.names.lasts evolves
  registered other found := by
    rcases evolves.fresh other id found with known | beyond
    · exact making.registered other known
    · exact absurd making.within (Nat.not_lt.mpr beyond)
  notLoaded other found := by
    rcases evolves.loaded other id found with known | ⟨notLoading, registered | beyond⟩
    · exact making.notLoaded other known
    · rcases evolves.fresh other id registered with known | beyond
      · exact notLoading (making.registered other known ▸ making.loading)
      · exact absurd making.within (Nat.not_lt.mpr beyond)
    · exact absurd making.within (Nat.not_lt.mpr beyond)
  loading := evolves.loading ▸ making.loading

theorem Making.definition (evolves : Evolves none before after)
    (making : Making name id before) : after.definition id = before.definition id :=
  evolves.frame id making.within nofun making.protects

theorem Designates.loaded {resolved : Resolved} (designates : before.Designates resolved) :
    ∃ target, resolved.id = some target ∧ before.Loaded target := by
  obtain ⟨target, holds, found, _⟩ := designates
  exact ⟨target, holds, resolved.name, found⟩

/-- Decorations hold as long as what is loaded stays loaded as it is. -/
theorem Designates.mono {resolved : Resolved}
    (kept : ∀ name id, before.cache.find? name = some id →
      after.cache.find? name = some id ∧ after.definition id = before.definition id)
    (designates : before.Designates resolved) : after.Designates resolved := by
  obtain ⟨target, holds, found, notType, notAbstract⟩ := designates
  obtain ⟨foundAfter, unchanged⟩ := kept resolved.name target found
  exact ⟨target, holds, foundAfter, unchanged ▸ notType, unchanged ▸ notAbstract⟩

theorem Linked.mono {links : List (Option Resolved × Bool)}
    (kept : ∀ name id, before.cache.find? name = some id →
      after.cache.find? name = some id ∧ after.definition id = before.definition id)
    (linked : before.Linked links) : after.Linked links :=
  fun link member resolved holds => (linked link member resolved holds).mono kept

theorem Linked.lasts {links : List (Option Resolved × Bool)} (sound : before.Sound strict)
    (evolves : Evolves own before after)
    (foreign : ∀ target, before.Loaded target → own ≠ some target)
    (linked : before.Linked links) : after.Linked links :=
  linked.mono fun name target found =>
    ⟨evolves.find?_cache found,
      sound.definition_of_loaded evolves (foreign target ⟨name, found⟩) ⟨name, found⟩⟩

theorem Complete.lasts {links : List (Option Resolved × Bool)}
    (evolves : Evolves own before after) (complete : before.Complete links) :
    after.Complete links :=
  fun link member named => (complete link member named).imp_right evolves.errors_ne_nil

theorem Ordered.lasts {links : List (Option Resolved × Bool)} {position : Nat}
    (evolves : Evolves own before after) (ordered : before.Ordered position links) :
    after.Ordered position links := by
  intro link member resolved holds
  obtain ⟨earlier, less, target, isTarget, found⟩ := ordered link member resolved holds
  exact ⟨earlier, less, target, isTarget, Table.getElem?_of_prefix evolves.cache found⟩

/-- What is loaded before a position of the cache has a position before it. -/
theorem Linked.ordered {links : List (Option Resolved × Bool)} (linked : before.Linked links) :
    before.Ordered before.cache.entries.length links := by
  intro link member resolved holds
  obtain ⟨target, isTarget, found, _⟩ := linked link member resolved holds
  obtain ⟨earlier, less, entry⟩ := List.getElem_of_mem (Table.mem_entries_of_find? found)
  exact ⟨earlier, less, target, isTarget, entry ▸ List.getElem?_eq_getElem less⟩

end Lasting

/-- A loaded definition that can be instantiated is designated by its own name. -/
theorem Sound.designates {strict : Prop} {context : Context} {id : DefinitionId}
    (sound : context.Sound strict) (loaded : context.Loaded id)
    (notType : (context.definition id).isType = false)
    (notAbstract : (context.definition id).isAbstract = false) :
    context.Designates ⟨(context.definition id).name, some id⟩ := by
  obtain ⟨name, found⟩ := loaded
  rcases sound.loaded_names name id found with named | ⟨-, blank⟩
  · exact ⟨id, rfl, named ▸ found, notType, notAbstract⟩
  · exact nomatch blank.isType.symm.trans notType

/-! ## Steps that keep the invariant -/

section Steps

variable {strict : Prop} {before after : Context} {name : String} {id : DefinitionId}

theorem Sound.ofReports (sound : before.Sound strict) (reports : Reports before after) :
    after.Sound strict := by
  have evolves : Evolves none before after := .ofReports reports
  have foreign : ∀ target, before.Loaded target → (none : Option DefinitionId) ≠ some target :=
    nofun
  constructor
  · rw [reports.cache]
    exact sound.keys
  · rw [reports.registered, reports.arena]
    exact sound.registered_lt
  · rw [reports.registered]
    exact sound.registered_unique
  · intro name id found
    rw [reports.definition]
    exact (sound.registered_names name id (reports.registered ▸ found)).lasts evolves
  · rw [reports.cache, reports.arena]
    exact sound.loaded_lt
  · rw [reports.cache]
    exact sound.loaded_unique
  · intro name id found
    rw [reports.definition]
    exact (sound.loaded_names name id (reports.cache ▸ found)).lasts evolves
  · rw [reports.cache, reports.registered]
    exact sound.loaded_registered
  · intro key id found
    exact (sound.remembered key id (reports.references ▸ found)).lasts evolves
  · intro name id found
    rw [reports.definition]
    exact sound.merged name id (reports.cache ▸ found)
  · intro isStrict clear key id found generic
    exact sound.isKeyOfGeneric isStrict evolves clear (reports.references ▸ found) generic
  · intro isStrict separates key id found
    exact sound.isKeyOfName isStrict evolves separates (reports.references ▸ found)
  · intro isStrict silent name id found
    rw [reports.definition]
    exact sound.once isStrict (evolves.errors_eq_nil silent) name id (reports.cache ▸ found)
  · intro isStrict id within
    rw [reports.definition]
    exact (sound.linked isStrict id (reports.arena ▸ within)).lasts sound evolves foreign
  · intro isStrict name id found
    rw [reports.definition]
    exact (sound.complete isStrict name id (reports.cache ▸ found)).lasts evolves
  · intro isStrict position name id found
    rw [reports.definition]
    exact (sound.ordered isStrict position name id (reports.cache ▸ found)).lasts evolves

/-- Slots are counted and compared by their position. -/
theorem Sound.loading (sound : before.Sound strict) (loading : List String) :
    { before with loading }.Sound strict :=
  { sound with
    keyed := fun isStrict clear =>
      sound.keyed isStrict (sound.isClear_of_same clear rfl rfl rfl)
    spelled := fun isStrict separates =>
      sound.spelled isStrict ⟨separates.silent, separates.separated⟩ }

theorem Sound.remember (sound : before.Sound strict) (key : String) (loaded : before.Loaded id)
    (keyed : strict → before.IsClear → (before.definition id).isGeneric = true →
      before.IsKeyOfGeneric key)
    (spelled : strict → before.SeparatesKeys → before.IsKeyOfName key id) :
    { before with references := before.references.insert key id }.Sound strict :=
  { sound with
    remembered := by
      intro other remembered found
      rw [Table.find?_insert] at found
      split at found
      · cases found
        exact loaded
      · exact sound.remembered other remembered found
    keyed := by
      intro isStrict clear other remembered found generic
      have clearBefore := sound.isClear_of_same clear rfl rfl rfl
      rw [Table.find?_insert] at found
      split at found
      · rename_i equal
        cases found
        exact equal ▸ keyed isStrict clearBefore generic
      · exact sound.keyed isStrict clearBefore other remembered found generic
    spelled := by
      intro isStrict separates other remembered found
      have separatesBefore : before.SeparatesKeys := ⟨separates.silent, separates.separated⟩
      rw [Table.find?_insert] at found
      split at found
      · rename_i equal
        cases found
        exact equal ▸ spelled isStrict separatesBefore
      · exact sound.spelled isStrict separatesBefore other remembered found }

/-- A new slot has no name yet. -/
theorem Sound.push (sound : before.Sound strict) {added : Definition}
    (linked : strict → before.Linked added.links) :
    { before with arena := before.arena.push added }.Sound strict := by
  have evolves : Evolves none before { before with arena := before.arena.push added } :=
    .push before added
  have size : (before.arena.push added).size = before.arena.size + 1 := Array.size_push ..
  have unchanged : ∀ id < before.arena.size,
      { before with arena := before.arena.push added }.definition id = before.definition id :=
    fun _ => definition_push before added
  have kept : ∀ name id, before.cache.find? name = some id →
      before.cache.find? name = some id ∧
        { before with arena := before.arena.push added }.definition id = before.definition id :=
    fun name id found => ⟨found, unchanged id (sound.loaded_lt name id found)⟩
  refine { sound with
    registered_lt := ?registered_lt
    registered_names := ?registered_names
    loaded_lt := ?loaded_lt
    loaded_names := ?loaded_names
    merged := ?merged
    keyed := fun isStrict clear _ _ => sound.isKeyOfGeneric isStrict evolves clear
    spelled := fun isStrict separates _ _ => sound.isKeyOfName isStrict evolves separates
    once := ?once
    linked := ?linked
    complete := ?complete
    ordered := ?ordered }
  case merged =>
    intro name id found
    rw [unchanged id (sound.loaded_lt name id found)]
    exact sound.merged name id found
  case once =>
    intro isStrict silent name id found
    rw [unchanged id (sound.loaded_lt name id found)]
    exact sound.once isStrict silent name id found
  case registered_lt =>
    intro name id found
    rw [size]
    exact Nat.lt_succ_of_lt (sound.registered_lt name id found)
  case registered_names =>
    intro name id found
    rw [unchanged id (sound.registered_lt name id found)]
    exact sound.registered_names name id found
  case loaded_lt =>
    intro name id found
    rw [size]
    exact Nat.lt_succ_of_lt (sound.loaded_lt name id found)
  case loaded_names =>
    intro name id found
    rw [unchanged id (sound.loaded_lt name id found)]
    exact sound.loaded_names name id found
  case linked =>
    intro isStrict id within
    rw [size] at within
    rcases Nat.lt_succ_iff_lt_or_eq.mp within with old | rfl
    · rw [unchanged id old]
      exact (sound.linked isStrict id old).mono kept
    · rw [definition_push_size]
      exact (linked isStrict).mono kept
  case complete =>
    intro isStrict name id found
    rw [unchanged id (sound.loaded_lt name id found)]
    exact sound.complete isStrict name id found
  case ordered =>
    intro isStrict position name id found
    have loaded := Table.find?_of_mem_entries sound.keys (List.mem_of_getElem? found)
    rw [unchanged id (sound.loaded_lt name id loaded)]
    exact sound.ordered isStrict position name id found

/-- A slot that is known under no name becomes known under one. -/
theorem Sound.registering (sound : before.Sound strict) (within : id < before.arena.size)
    (notRegistered : ∀ other, before.registered.find? other ≠ some id)
    (notLoaded : ∀ other, before.cache.find? other ≠ some id)
    (names : before.Names name (before.definition id)) :
    { before with registered := before.registered.insert name id }.Sound strict := by
  refine { sound with
    registered_lt := ?registered_lt
    registered_unique := ?registered_unique
    registered_names := ?registered_names
    loaded_registered := ?loaded_registered
    keyed := fun isStrict clear =>
      sound.keyed isStrict (sound.isClear_of_same clear rfl rfl rfl)
    spelled := fun isStrict separates =>
      sound.spelled isStrict ⟨separates.silent, separates.separated⟩ }
  case registered_lt =>
    intro other otherId found
    rw [Table.find?_insert] at found
    split at found
    · cases found
      exact within
    · exact sound.registered_lt other otherId found
  case registered_unique =>
    intro first second firstId foundFirst foundSecond
    rw [Table.find?_insert] at foundFirst foundSecond
    split at foundFirst <;> split at foundSecond
    · exact (‹name = first›).symm.trans ‹name = second›
    · cases foundFirst
      exact absurd foundSecond (notRegistered second)
    · cases foundSecond
      exact absurd foundFirst (notRegistered first)
    · exact sound.registered_unique first second firstId foundFirst foundSecond
  case registered_names =>
    intro other otherId found
    rw [Table.find?_insert] at found
    split at found
    · rename_i equal
      cases found
      exact equal ▸ names
    · exact sound.registered_names other otherId found
  case loaded_registered =>
    intro loaded other otherId found registered
    rw [Table.find?_insert] at registered
    split at registered
    · cases registered
      exact absurd found (notLoaded loaded)
    · exact sound.loaded_registered loaded other otherId found registered

theorem Sound.fresh_registered (sound : before.Sound strict) (other : String) :
    before.registered.find? other ≠ some before.arena.size :=
  fun found => Nat.lt_irrefl _ (sound.registered_lt other _ found)

theorem Sound.fresh_loaded (sound : before.Sound strict) (other : String) :
    before.cache.find? other ≠ some before.arena.size :=
  fun found => Nat.lt_irrefl _ (sound.loaded_lt other _ found)

theorem Sound.register (sound : before.Sound strict) {added : Definition}
    (names : added.name = name) (linked : strict → before.Linked added.links) :
    (before.register name added).2.Sound strict := by
  have within : before.arena.size < (before.arena.push added).size := by
    rw [Array.size_push]
    exact Nat.lt_succ_self _
  refine (sound.push linked).registering within sound.fresh_registered sound.fresh_loaded ?_
  rw [definition_push_size]
  exact .inl names

/-- The slot under work takes a definition of the same name that is generic if it was. -/
theorem Making.evolves (making : Making name id before) {changed : Definition}
    (names : before.Names name changed)
    (shape : before.log.errors = [] → changed.isGeneric = (before.definition id).isGeneric) :
    Evolves (some id) before (before.replace id changed) :=
  .replace fun silent => ⟨(names.eq_of_silent silent).trans
    (making.names.eq_of_silent silent).symm, shape silent⟩

/-- The slot under work takes a new definition for the same name. -/
theorem Sound.replace (sound : before.Sound strict) (making : Making name id before)
    {changed : Definition} (names : before.Names name changed)
    (shape : before.log.errors = [] → changed.isGeneric = (before.definition id).isGeneric)
    (linked : strict → before.Linked changed.links) :
    (before.replace id changed).Sound strict := by
  have size : (before.replace id changed).arena.size = before.arena.size :=
    Array.size_setIfInBounds ..
  have own := definition_replace before changed making.within
  have unchanged : ∀ other, id ≠ other →
      (before.replace id changed).definition other = before.definition other :=
    fun _ => definition_replace_of_ne before changed
  have different : ∀ loaded other, before.cache.find? loaded = some other → id ≠ other :=
    fun loaded other found => making.ne_of_loaded ⟨loaded, found⟩
  have kept : ∀ loaded other, before.cache.find? loaded = some other →
      before.cache.find? loaded = some other ∧
        (before.replace id changed).definition other = before.definition other :=
    fun loaded other found => ⟨found, unchanged other (different loaded other found)⟩
  have evolves := making.evolves names shape
  refine { sound with
    registered_lt := ?registered_lt
    registered_names := ?registered_names
    loaded_lt := ?loaded_lt
    loaded_names := ?loaded_names
    merged := ?merged
    keyed := fun isStrict clear _ _ => sound.isKeyOfGeneric isStrict evolves clear
    spelled := fun isStrict separates _ _ => sound.isKeyOfName isStrict evolves separates
    once := ?once
    linked := ?linked
    complete := ?complete
    ordered := ?ordered }
  case merged =>
    intro other otherId found
    rw [unchanged otherId (different other otherId found)]
    exact sound.merged other otherId found
  case once =>
    intro isStrict silent other otherId found
    rw [unchanged otherId (different other otherId found)]
    exact sound.once isStrict silent other otherId found
  case registered_lt =>
    rw [size]
    exact sound.registered_lt
  case registered_names =>
    intro other otherId found
    by_cases same : id = otherId
    · cases same
      rw [own, making.registered other found]
      exact names
    · rw [unchanged otherId same]
      exact sound.registered_names other otherId found
  case loaded_lt =>
    rw [size]
    exact sound.loaded_lt
  case loaded_names =>
    intro other otherId found
    rw [unchanged otherId (different other otherId found)]
    exact sound.loaded_names other otherId found
  case linked =>
    intro isStrict other within
    rw [size] at within
    by_cases same : id = other
    · cases same
      rw [own]
      exact (linked isStrict).mono kept
    · rw [unchanged other same]
      exact (sound.linked isStrict other within).mono kept
  case complete =>
    intro isStrict other otherId found
    rw [unchanged otherId (different other otherId found)]
    exact sound.complete isStrict other otherId found
  case ordered =>
    intro isStrict position other otherId found
    have loaded := Table.find?_of_mem_entries sound.keys (List.mem_of_getElem? found)
    rw [unchanged otherId (different other otherId loaded)]
    exact sound.ordered isStrict position other otherId found

theorem Making.replace (making : Making name id before) {changed : Definition}
    (names : before.Names name changed) : Making name id (before.replace id changed) :=
  { making with
    within := (Array.size_setIfInBounds ..).symm ▸ making.within
    names := (definition_replace before changed making.within).symm ▸ names }

/-- The definition that was made becomes the last of the loaded ones. -/
theorem Sound.finish (sound : before.Sound strict) (making : Making name id before)
    (absent : before.cache.find? name = none)
    (merged : (before.definition id).decorations.extendsMerged = true)
    (once : strict → before.log.errors = [] → (before.definition id).typeParameterNames.Nodup)
    (complete : strict → before.Complete (before.definition id).links) :
    { before with cache := before.cache.insert name id }.Sound strict := by
  have entries := Table.entries_insert_of_find?_none absent id
  have prior : before.cache.entries <+: (before.cache.insert name id).entries :=
    ⟨[(name, id)], entries.symm⟩
  have kept : ∀ loaded other, before.cache.find? loaded = some other →
      (before.cache.insert name id).find? loaded = some other ∧
        { before with cache := before.cache.insert name id }.definition other =
          before.definition other :=
    fun loaded other found => ⟨Table.find?_of_prefix prior found, rfl⟩
  have known : ∀ loaded other, (before.cache.insert name id).find? loaded = some other →
      loaded = name ∧ other = id ∨ before.cache.find? loaded = some other := by
    intro loaded other found
    rw [Table.find?_insert] at found
    split at found
    · cases found
      exact .inl ⟨(‹name = loaded›).symm, rfl⟩
    · exact .inr found
  refine { sound with
    keys := Table.nodup_keys_insert sound.keys absent id
    loaded_lt := ?loaded_lt
    loaded_unique := ?loaded_unique
    loaded_names := ?loaded_names
    loaded_registered := ?loaded_registered
    remembered := ?remembered
    merged := ?merged
    keyed := ?keyed
    spelled := ?spelled
    once := ?once
    linked := ?linked
    complete := ?complete
    ordered := ?ordered }
  case loaded_lt =>
    intro loaded other found
    rcases known loaded other found with ⟨-, rfl⟩ | found
    · exact making.within
    · exact sound.loaded_lt loaded other found
  case loaded_unique =>
    intro first second other foundFirst foundSecond
    rcases known first other foundFirst with ⟨sameFirst, slotFirst⟩ | earlierFirst
    · rcases known second other foundSecond with ⟨sameSecond, -⟩ | earlierSecond
      · rw [sameFirst, sameSecond]
      · exact absurd (slotFirst ▸ earlierSecond) (making.notLoaded second)
    · rcases known second other foundSecond with ⟨-, slotSecond⟩ | earlierSecond
      · exact absurd (slotSecond ▸ earlierFirst) (making.notLoaded first)
      · exact sound.loaded_unique first second other earlierFirst earlierSecond
  case loaded_names =>
    intro loaded other found
    rcases known loaded other found with ⟨rfl, rfl⟩ | found
    · exact making.names
    · exact sound.loaded_names loaded other found
  case loaded_registered =>
    intro loaded registered other found foundRegistered
    rcases known loaded other found with ⟨rfl, rfl⟩ | found
    · exact making.registered registered foundRegistered
    · exact sound.loaded_registered loaded registered other found foundRegistered
  case remembered =>
    intro key other found
    obtain ⟨loaded, foundLoaded⟩ := sound.remembered key other found
    exact ⟨loaded, (kept loaded other foundLoaded).1⟩
  case merged =>
    intro loaded other found
    rcases known loaded other found with ⟨-, rfl⟩ | found
    · exact merged
    · exact sound.merged loaded other found
  case keyed =>
    intro isStrict clear
    refine sound.keyed isStrict (clear.earlier clear.1 (Nat.le_refl _) ?_ fun _ _ => ⟨rfl, rfl⟩)
    rintro other ⟨loaded, found⟩
    exact ⟨sound.loaded_lt loaded other found, loaded, (kept loaded other found).1⟩
  case spelled =>
    intro isStrict separates key other found
    obtain ⟨scope, within, reference, equal, spelled⟩ :=
      sound.spelled isStrict ⟨separates.silent, separates.separated⟩ key other found
    exact ⟨scope, within, reference, equal, fun spells => (kept _ other (spelled spells)).1⟩
  case once =>
    intro isStrict silent loaded other found
    rcases known loaded other found with ⟨-, rfl⟩ | found
    · exact once isStrict silent
    · exact sound.once isStrict silent loaded other found
  case linked =>
    intro isStrict other within
    exact (sound.linked isStrict other within).mono kept
  case complete =>
    intro isStrict loaded other found
    rcases known loaded other found with ⟨-, rfl⟩ | found
    · exact complete isStrict
    · exact sound.complete isStrict loaded other found
  case ordered =>
    intro isStrict position loaded other found
    have earlier : ∀ links, before.Ordered position links →
        { before with cache := before.cache.insert name id }.Ordered position links :=
      fun links ordered link member resolved holds => by
        obtain ⟨place, less, target, isTarget, entry⟩ := ordered link member resolved holds
        exact ⟨place, less, target, isTarget, Table.getElem?_of_prefix prior entry⟩
    change (before.cache.insert name id).entries[position]? = _ at found
    rw [entries, List.getElem?_append] at found
    split at found
    · exact earlier _ (sound.ordered isStrict position loaded other found)
    · have last : position = before.cache.entries.length := by
        have bound := (List.getElem?_eq_some_iff.mp found).1
        simp only [List.length_singleton] at bound
        omega
      subst last
      simp only [Nat.sub_self, List.getElem?_cons_zero, Option.some.injEq,
        Prod.mk.injEq] at found
      rw [← found.2]
      exact earlier _ (sound.linked isStrict id making.within).ordered

end Steps

end Context

end Adl
