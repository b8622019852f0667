import Adl.Proofs.Reference.Matching
import Adl.Proofs.Template.Copies
import Adl.Reference.Resolution

namespace Adl

open Step Context

/-! Resolution gives definitions that are loaded, or nothing after an error. While it
loads what references need it keeps the discipline of the loads. -/

namespace Resolver

/-- The discipline of steps on a reference for which there is enough depth. They put no
value into it that is not allowed. -/
abbrev discipline (frontEnd : FrontEnd) (strict : Prop) (Extra : Context → Prop) (depth : Nat)
    (Allowed : Value → Prop) : Discipline (Context × Reference) :=
  (evolving frontEnd strict none Extra).drafting fun _ => Reference.IsWithin depth Allowed

abbrev argumentDiscipline (frontEnd : FrontEnd) (strict : Prop) (Extra : Context → Prop)
    (depth : Nat) (Allowed : Value → Prop) : Discipline (Context × TypeArgument) :=
  (evolving frontEnd strict none Extra).drafting fun _ => TypeArgument.IsWithin depth Allowed

/-- What a reference, which a definition holds, designates in a state, with what has become of
the reference. -/
abbrev Answer := Reference → Option DefinitionId → DefinitionId → Context × Reference → Prop

/-- An answer of the inner layers: what the name designates is loaded. -/
def IsLoaded : Answer := fun reference _ id pair =>
  pair.1.cache.find? reference.name = some id ∧
    pair.2.typeArguments = reference.typeArguments

/-- Where the reference spells a name, the definition is loaded under it. -/
structure IsNamed (strict : Prop) (reference : Reference) (id : DefinitionId)
    (context : Context) : Prop where
  loaded : context.Loaded id
  spelled : strict → context.SeparatesKeys → SpellsName reference.text.toList →
    context.cache.find? reference.text = some id

/-- An answer to a whole reference: also, only definitions that are generic designate ones
that are, as far as names tell them apart. -/
structure IsFitting (strict : Prop) (reference : Reference) (scope : Option DefinitionId)
    (id : DefinitionId) (context : Context) : Prop extends IsNamed strict reference id context where
  generic : strict → context.IsClear → (context.definition id).isGeneric = true →
    context.IsGenericScope scope

/-- References to what may be bound to a type parameter are answered by name. -/
abbrev naming (strict : Prop) : Answer := fun reference _ id pair =>
  IsNamed strict reference id pair.1

/-- Whole references are answered by what fits them. -/
abbrev fitting (strict : Prop) : Answer := fun reference scope id pair =>
  IsFitting strict reference scope id pair.1

/-- Under the strict reading references stand in definitions. -/
def InScope (strict : Prop) (scope : Option DefinitionId) (context : Context) : Prop :=
  strict → ∃ id < context.arena.size, scope = some id

/-- What is known of the answer to a reference, which it is decorated with. -/
def Found (strict : Prop) (answer : Answer) (reference : Reference)
    (scope found : Option DefinitionId) (pair : Context × Reference) : Prop :=
  Answers strict (fun id context => answer reference scope id (context, pair.2)) found pair.1 ∧
    ∀ id, found = some id → pair.2.resolvedId? = some id

/-- A binding bears the name that a type argument spells. -/
def Bears (context : Context) (argument : TypeArgument) (binding : TypeBinding) : Prop :=
  SpellsName argument.value.text.toList → binding.name context = argument.value.text

def Bound (strict : Prop) (scope : Option DefinitionId) (argument : TypeArgument)
    (found : Option TypeBinding) (context : Context) : Prop :=
  Answers strict (fun binding context => binding.IsBindable strict scope context ∧
    (strict → context.SeparatesKeys → Bears context argument binding)) found context

def Resolves (frontEnd : FrontEnd) (strict : Prop) (Extra : Context → Prop) (depth : Nat)
    (answer : Answer) (left right : Resolver) : Prop :=
  ∀ Allowed scope context reference, InScope strict scope context → context.Sound strict →
    Extra context → reference.IsWithin depth Allowed →
    Agree (discipline frontEnd strict Extra depth Allowed) (context, reference) (left scope)
      (right scope) (Found strict answer reference scope)

variable {strict : Prop} {Extra : Context → Prop} {load twin : String → Loading DefinitionId}
  {depth : Nat} {Allowed : Value → Prop} {inner innerTwin nested nestedTwin : Resolver}
  {frontEnd : FrontEnd} {context : Context} {reference : Reference}
  {scope : Option DefinitionId} {answer : Answer}

theorem Found.none {pair : Context × Reference} (reported : strict → pair.1.log.errors ≠ []) :
    Found strict answer reference scope none pair :=
  ⟨reported, nofun⟩

theorem InScope.lasts {before after : Context} {own : Option DefinitionId}
    (evolves : Evolves own before after) (inScope : InScope strict scope before) :
    InScope strict scope after := by
  intro isStrict
  obtain ⟨id, within, isScope⟩ := inScope isStrict
  exact ⟨id, Nat.lt_of_lt_of_le within evolves.size, isScope⟩

theorem IsNamed.lasts {before after : Context} {own : Option DefinitionId} {id : DefinitionId}
    (evolves : Evolves own before after)
    (isNamed : IsNamed strict reference id before) : IsNamed strict reference id after where
  loaded := isNamed.loaded.lasts evolves
  spelled isStrict separates spells :=
    evolves.find?_cache (isNamed.spelled isStrict (separates.earlier evolves) spells)

theorem IsFitting.lasts {before after : Context} {own : Option DefinitionId} {id : DefinitionId}
    (sound : before.Sound strict) (evolves : Evolves own before after)
    (fitting : IsFitting strict reference scope id before) :
    IsFitting strict reference scope id after where
  toIsNamed := fitting.toIsNamed.lasts evolves
  generic isStrict clear generic := by
    have shape := (evolves.shapes clear.1 id (sound.within fitting.loaded)).2
    exact (fitting.generic isStrict (sound.isClear evolves clear) (shape ▸ generic)).lasts evolves
      clear.1

theorem IsFitting.of_not_generic {id : DefinitionId} (isNamed : IsNamed strict reference id context)
    (plain : (context.definition id).isGeneric = false) :
    IsFitting strict reference scope id context :=
  ⟨isNamed, fun _ _ generic => nomatch plain.symm.trans generic⟩

/-- A bare reference spells its own name. -/
theorem IsNamed.of_bare {id : DefinitionId} (found : context.cache.find? reference.name = some id)
    (bare : reference.typeArguments = []) : IsNamed strict reference id context where
  loaded := ⟨_, found⟩
  spelled _ _ spells := by
    rw [Reference.text_of_spells spells, bare]
    exact found

/-- What fits one reference fits another one that spells no name, or the same. -/
theorem IsFitting.of_text {other : Reference} {id : DefinitionId}
    (fitting : IsFitting strict other scope id context)
    (same : SpellsName reference.text.toList → other.text = reference.text) :
    IsFitting strict reference scope id context where
  loaded := fitting.loaded
  spelled isStrict separates spells := by
    have equal := same spells
    rw [← equal] at spells ⊢
    exact fitting.spelled isStrict separates spells
  generic := fitting.generic

theorem Found.of_text {other : Reference} {found : Option DefinitionId}
    {pair : Context × Reference} (holds : Found strict (fitting strict) other scope found pair)
    (same : SpellsName reference.text.toList → other.text = reference.text) :
    Found strict (fitting strict) reference scope found pair := by
  cases found with
  | none => exact holds
  | some id => exact ⟨holds.1.of_text same, holds.2⟩

theorem agree_decorated {form : Reference}
    (valid : (discipline frontEnd strict Extra depth Allowed).Valid (context, form))
    (name : String) {id : DefinitionId}
    (holds : answer reference scope id
      (context, { form with resolved := some ⟨name, some id⟩ })) :
    Agree (discipline frontEnd strict Extra depth Allowed) (context, form)
      (do decorate name id; return some id) (do decorate name id; return some id)
      (Found strict answer reference scope) := by
  refine .through (fun _ pair => pair = (context, { form with resolved := some ⟨name, some id⟩ }))
    (Drafting.agree_modifyDraft valid.1 (valid.2.congr rfl rfl) rfl) ?_
  rintro _ _ validAfter _ rfl
  exact .pure validAfter ⟨holds, fun _ found => found ▸ rfl⟩

theorem resolves_named (lasts : Lasts frontEnd strict Extra) (loads : Loads frontEnd strict Extra load twin) :
    Resolves frontEnd strict Extra depth IsLoaded (named load) (named twin) := by
  intro Allowed scope context reference _ sound extra within
  refine .read rfl ?_
  refine Drafting.agree_lift_bind (Discipline.lasting_const _ _) ⟨sound, extra⟩ within
    (Loading.agree_orRecorded lasts _ (loads _ context sound extra)) ?_
  intro found reached valid _ within answer
  cases found with
  | none => exact .pure ⟨valid, within⟩ (.none answer)
  | some id => exact agree_decorated ⟨valid, within⟩ _ ⟨answer, rfl⟩

theorem resolves_withArguments (lasts : Lasts frontEnd strict Extra)
    (resolves : Resolves frontEnd strict Extra depth IsLoaded inner innerTwin) :
    Resolves frontEnd strict Extra depth IsLoaded (withArguments inner) (withArguments innerTwin) := by
  intro Allowed scope context reference inScope sound extra within
  refine .bind (resolves Allowed scope context reference inScope sound extra within) ?_
  rintro found ⟨reached, draft⟩ valid _ answer
  cases found with
  | none => exact .pure valid answer
  | some target =>
      refine .read rfl ?_
      refine .bind (Drafting.agree_reported valid.1.1 valid.1.2 lasts
        (Arguments.agree_check _ _ valid.2 fun _ values => valid.2.congr values rfl)) ?_
      rintro accepted later valid leads ⟨same, refused⟩
      cases accepted with
      | true =>
          obtain ⟨⟨loaded, typeArguments⟩, decorated⟩ := answer
          have kept : later.2.resolvedId? = draft.resolvedId? := by
            simp only [Reference.resolvedId?, same.resolved]
          exact .pure valid ⟨⟨leads.toEvolves.find?_cache loaded,
            same.typeArguments.trans typeArguments⟩, fun id found => kept.trans (decorated id found)⟩
      | false => exact .pure valid (.none fun _ => refused rfl)

/-! ## Instances -/

theorem agree_admits (frontEnd : FrontEnd) (generic : DefinitionId) (parameter : String) (scope : Option DefinitionId)
    (span : Span) (id : DefinitionId) :
    Agree reporting context (admits frontEnd generic parameter scope span id)
      (admits frontEnd generic parameter scope span id)
      fun admitted reached =>
        match admitted with
        | true => scope.isSome = true → (context.definition id).isType = false ∧
            (context.definition id).isAbstract = false
        | false => reached.log.errors ≠ [] := by
  refine .read rfl ?_
  dsimp only
  split
  · refine .bind (Loading.agree_recordError _ _ _) ?_
    intro _ reached _ _ recorded
    exact .pure trivial recorded
  · rename_i admissible
    have usable : scope.isSome = true → (context.definition id).isType = false ∧
        (context.definition id).isAbstract = false := by
      intro inScope
      rw [inScope, Bool.true_and, Bool.or_eq_true, not_or] at admissible
      exact ⟨Bool.eq_false_iff.mpr admissible.1, Bool.eq_false_iff.mpr admissible.2⟩
    split
    · exact .pure trivial usable
    · split
      · exact .pure trivial usable
      · rename_i problems present
        refine .bind (Loading.agree_recordErrors (Conformance.areErrors_problems _ _ _ _)
          present) ?_
        intro _ reached _ _ recorded
        exact .pure trivial recorded

theorem resolves_bindReference (lasts : Lasts frontEnd strict Extra) (loads : Loads frontEnd strict Extra load twin)
    (resolves : Resolves frontEnd strict Extra depth (fitting strict) nested nestedTwin) :
    Resolves frontEnd strict Extra depth (naming strict) (bindReference load nested)
      (bindReference twin nestedTwin) := by
  intro Allowed scope context reference inScope sound extra within
  refine .read rfl ?_
  split
  · rename_i isBare
    have bare : reference.typeArguments = [] :=
      List.isEmpty_iff.mp (Bool.and_eq_true_iff.mp isBare).2
    refine (resolves_named lasts loads Allowed scope context reference inScope sound extra
      within).mono ?_
    intro found reached _ _ answer
    cases found with
    | none => exact answer
    | some id => exact ⟨.of_bare answer.1.1 bare, answer.2⟩
  · refine (resolves Allowed scope context reference inScope sound extra within).mono ?_
    intro found reached _ _ answer
    cases found with
    | none => exact answer
    | some id => exact ⟨answer.1.toIsNamed, answer.2⟩

/-- A definition with the type parameter that a reference uses is generic. -/
theorem isGenericScope_of_hasTypeParameter {parameter : String}
    (declares : (scopeDefinition? scope context).any (·.hasTypeParameter parameter) = true) :
    context.IsGenericScope scope := by
  cases scope with
  | none => exact nomatch declares
  | some id =>
      change (context.definition id).hasTypeParameter parameter = true at declares
      have declared : (context.definition id).typeParameters ≠ [] := by
        intro empty
        simp [Definition.hasTypeParameter, Definition.typeParameter?, empty] at declares
      refine ⟨id, Nat.lt_of_not_le fun beyond => ?_, rfl, ?_⟩
      · have absent : context.definition id = default := by
          simp [Context.definition, Array.getElem?_eq_none beyond]
        exact declared (absent ▸ rfl)
      · simpa [Definition.isGeneric] using declared

theorem agree_bind (lasts : Lasts frontEnd strict Extra) (loads : Loads frontEnd strict Extra load twin)
    (resolves : ∀ below, depth = below + 1 →
      Resolves frontEnd strict Extra below (fitting strict) nested nestedTwin)
    (inScope : InScope strict scope context) (generic : DefinitionId) (parameter : String)
    {argument : TypeArgument}
    (valid : (argumentDiscipline frontEnd strict Extra depth Allowed).Valid (context, argument)) :
    Agree (argumentDiscipline frontEnd strict Extra depth Allowed) (context, argument)
      (bind frontEnd load nested scope generic parameter)
      (bind frontEnd twin nestedTwin scope generic parameter)
      fun found pair => Bound strict scope argument found pair.1 := by
  obtain ⟨name, value, span⟩ := argument
  refine .read rfl ?_
  cases value with
  | parameter used =>
      refine .read rfl ?_
      split
      · rename_i declares
        exact .pure valid
          ⟨fun _ _ => isGenericScope_of_hasTypeParameter declares, fun _ _ _ => rfl⟩
      · refine Drafting.agree_lift_bind (Discipline.lasting_const _ _) valid.1 valid.2
          ((Loading.agree_recordError _ _ _).reported valid.1.1 valid.1.2 lasts) ?_
        intro _ reached valid _ nested recorded
        exact .pure ⟨valid, nested⟩ fun _ => recorded
  | definition reference =>
      cases depth with
      | zero => exact absurd valid.2.nested (Nat.not_succ_le_zero _)
      | succ below =>
          have within : reference.IsWithin below Allowed :=
            ⟨Nat.le_of_succ_le_succ valid.2.nested, valid.2.values⟩
          refine .bind (Drafting.agree_onPart
            (resolves_bindReference lasts loads (resolves below rfl) Allowed scope context
              reference inScope valid.1.1 valid.1.2 within)
            fun _ part _ _ within => ⟨Nat.succ_le_succ within.nested, within.values⟩) ?_
          rintro found ⟨reached, draft⟩ valid _ ⟨part, -, -, answer⟩
          cases found with
          | none => exact .pure valid answer.1
          | some id =>
              refine Drafting.agree_lift_bind (Discipline.lasting_const _ _) valid.1 valid.2
                ((agree_admits frontEnd generic parameter scope span id).reported
                  valid.1.1 valid.1.2 lasts) ?_
              intro admitted later validLater leads nested verdict
              cases admitted with
              | false => exact .pure ⟨validLater, nested⟩ fun _ => verdict
              | true =>
                  have isNamed : IsNamed strict reference id reached := answer.1
                  have same :=
                    valid.1.1.definition_of_loaded leads.toEvolves nofun isNamed.loaded
                  refine .pure ⟨validLater, nested⟩
                    ⟨fun isStrict => ?_, fun isStrict separates spells => ?_⟩
                  · rw [same]
                    obtain ⟨_, _, isScope⟩ := inScope isStrict
                    exact ⟨isNamed.loaded.lasts leads.toEvolves, verdict (isScope ▸ rfl)⟩
                  · have separatesBefore := separates.earlier leads.toEvolves
                    have found := isNamed.spelled isStrict separatesBefore spells
                    exact (congrArg Definition.name same).trans
                      ((valid.1.1.loaded_names _ id found).eq_of_silent separatesBefore.silent)

theorem agree_atTypeArgument {position : Nat}
    {step stepTwin : Revising TypeArgument (Option TypeBinding)}
    (valid : (discipline frontEnd strict Extra depth Allowed).Valid (context, reference))
    (within : position < reference.typeArguments.length)
    (agree : ∀ argument,
      (argumentDiscipline frontEnd strict Extra depth Allowed).Valid (context, argument) →
      Agree (argumentDiscipline frontEnd strict Extra depth Allowed) (context, argument) step
        stepTwin fun found pair => Bound strict scope argument found pair.1) :
    Agree (discipline frontEnd strict Extra depth Allowed) (context, reference)
      (atTypeArgument position step) (atTypeArgument position stepTwin)
      fun found pair =>
        Bound strict scope reference.typeArguments[position] found pair.1 ∧
          ∃ changed, pair.2.typeArguments = reference.typeArguments.set position changed := by
  obtain ⟨arguments, typeArguments⟩ := Reference.isWithin_iff.mp valid.2
  refine .read rfl ?_
  rw [List.getElem?_eq_getElem within]
  dsimp only
  refine Agree.mono (Drafting.agree_onPart
    (agree _ ⟨valid.1, typeArguments _ (List.getElem_mem within)⟩) ?_) ?_
  · intro reached argument _ _ changed
    refine Reference.isWithin_iff.mpr ⟨arguments, fun other member => ?_⟩
    rcases List.mem_or_eq_of_mem_set member with old | rfl
    · exact typeArguments other old
    · exact changed
  · rintro found ⟨reached, draft⟩ _ _ ⟨argument, rfl, -, bound⟩
    exact ⟨bound, argument, rfl⟩

/-! ## Bindings in turn -/

/-- Where no parameter and no type argument comes twice, the parameters that were bound last bear
the names that their type arguments spell. -/
def BindsInTurn (context : Context) (positions : List (String × Nat))
    (arguments : List TypeArgument) (earlier bindings : TypeBindings) : Prop :=
  (positions.map (·.1)).Nodup → (positions.map (·.2)).Nodup →
    (∀ entry ∈ positions, earlier.find? entry.1 = none) →
    ∃ added, bindings.entries = earlier.entries ++ added ∧
      List.Forall₂ (fun entry bound => ∀ argument, arguments[entry.2]? = some argument →
        Bears context argument bound.2) positions added

namespace BindsInTurn

theorem nil (context : Context) (arguments : List TypeArgument) (bindings : TypeBindings) :
    BindsInTurn context [] arguments bindings bindings :=
  fun _ _ _ => ⟨[], (List.append_nil _).symm, .nil⟩

theorem cons {positions : List (String × Nat)} {arguments : List TypeArgument}
    {earlier bindings : TypeBindings} {parameter : String} {position : Nat}
    {binding : TypeBinding} {changed : TypeArgument}
    (bears : ∀ argument, arguments[position]? = some argument → Bears context argument binding)
    (inTurn : BindsInTurn context positions (arguments.set position changed)
      (earlier.insert parameter binding) bindings) :
    BindsInTurn context ((parameter, position) :: positions) arguments earlier bindings := by
  intro parameters places unbound
  obtain ⟨newParameter, parameters⟩ := List.nodup_cons.mp parameters
  obtain ⟨newPlace, places⟩ := List.nodup_cons.mp places
  obtain ⟨absent, unbound⟩ := List.forall_mem_cons.mp unbound
  obtain ⟨added, entries, related⟩ := inTurn parameters places fun entry member => by
    rw [Table.find?_insert, if_neg]
    · exact unbound entry member
    · intro same
      exact newParameter (List.mem_map.mpr ⟨entry, member, same.symm⟩)
  refine ⟨(parameter, binding) :: added, ?_, .cons bears ?_⟩
  · rw [entries, Table.entries_insert_of_find?_none absent, List.append_assoc,
      List.singleton_append]
  · refine (List.forall₂_iff_zip.mpr ⟨related.length_eq, fun {entry bound} paired => ?_⟩)
    intro argument found
    refine List.forall₂_zip related paired argument ?_
    rw [List.getElem?_set_ne, found]
    intro same
    exact newPlace (List.mem_map.mpr ⟨entry, (List.of_mem_zip paired).1, same.symm⟩)

/-- Parameters that were bound to arguments without labels, all of which spell names. -/
theorem names_eq {parameters : List String} {arguments : List TypeArgument}
    {bindings : TypeBindings} (distinct : parameters.Nodup)
    (length : parameters.length = arguments.length)
    (spelled : ∀ argument ∈ arguments, SpellsName argument.value.text.toList)
    (inTurn : BindsInTurn context (parameters.zip (List.range parameters.length)) arguments .empty
      bindings) :
    bindings.values.map (·.name context) = arguments.map (·.value.text) := by
  have first : (parameters.zip (List.range parameters.length)).map (·.1) = parameters :=
    List.map_fst_zip (by simp)
  have second : (parameters.zip (List.range parameters.length)).map (·.2) =
      List.range parameters.length :=
    List.map_snd_zip (by simp)
  obtain ⟨added, entries, related⟩ := inTurn (first.symm ▸ distinct)
    (second.symm ▸ List.nodup_range) fun _ _ => rfl
  have sameLength := related.length_eq
  rw [List.length_zip, List.length_range, Nat.min_self, length] at sameLength
  rw [Table.values, entries]
  refine List.ext_getElem (by simpa [Table.empty] using sameLength.symm) fun place left right => ?_
  have within : place < arguments.length := by simpa using right
  have paired := (List.forall₂_iff_get.mp related).2 place (by simpa [length] using within)
    (sameLength ▸ within) arguments[place] (by simp)
  simpa [Table.empty] using paired (spelled _ (List.getElem_mem within))

end BindsInTurn

/-- One binding after the other: those that are made last while the rest is tried. -/
theorem agree_bindAll {step stepTwin : String → Revising TypeArgument (Option TypeBinding)}
    {positions : List (String × Nat)}
    (agree : ∀ parameter context argument, InScope strict scope context →
      (argumentDiscipline frontEnd strict Extra depth Allowed).Valid (context, argument) →
      Agree (argumentDiscipline frontEnd strict Extra depth Allowed) (context, argument)
        (step parameter) (stepTwin parameter)
        fun found pair => Bound strict scope argument found pair.1)
    (inScope : InScope strict scope context)
    (bindings : TypeBindings) (bindable : bindings.AreBindable strict scope context)
    (valid : (discipline frontEnd strict Extra depth Allowed).Valid (context, reference))
    (within : ∀ entry ∈ positions, entry.2 < reference.typeArguments.length) :
    Agree (discipline frontEnd strict Extra depth Allowed) (context, reference) (bindAll step positions bindings)
      (bindAll stepTwin positions bindings)
      fun found pair => Answers strict
        (fun bound context => TypeBindings.AreBindable strict scope context bound ∧
          (strict → context.SeparatesKeys →
            BindsInTurn context positions reference.typeArguments bindings bound))
        found pair.1 := by
  induction positions generalizing bindings context reference with
  | nil => exact .pure valid ⟨bindable, fun _ _ => .nil _ _ _⟩
  | cons entry rest induction =>
      obtain ⟨parameter, position⟩ := entry
      have room := within _ List.mem_cons_self
      refine .bind (agree_atTypeArgument valid room
        fun argument => agree parameter context argument inScope) ?_
      rintro found ⟨reached, draft⟩ validAfter leads ⟨answer, changed, isChanged⟩
      have stays : bindings.AreBindable strict scope reached :=
        fun binding member => (bindable binding member).lasts valid.1.1 leads.toEvolves
      have roomAfter : ∀ entry ∈ rest, entry.2 < draft.typeArguments.length := by
        intro entry member
        rw [show draft.typeArguments = _ from isChanged, List.length_set]
        exact within entry (List.mem_cons_of_mem _ member)
      cases found with
      | some binding =>
          have bindableAfter : TypeBindings.AreBindable strict scope reached
              (bindings.insert parameter binding) := by
            intro other member
            rcases Table.mem_values_insert member with rfl | old
            · exact answer.1
            · exact stays other old
          refine (induction (inScope.lasts leads.toEvolves) (bindings.insert parameter binding)
            bindableAfter validAfter roomAfter).mono ?_
          rintro bound ⟨later, last⟩ _ leadsLater made
          cases bound with
          | none => exact made
          | some bound =>
              obtain ⟨areBindable, inTurn⟩ := made
              refine ⟨areBindable, fun isStrict separates => ?_⟩
              have inTurn := inTurn isStrict separates
              rw [show draft.typeArguments = _ from isChanged] at inTurn
              refine .cons (fun argument found spells => ?_) inTurn
              rw [List.getElem?_eq_getElem room] at found
              cases found
              rw [answer.1.name_eq isStrict validAfter.1.1 leadsLater.toEvolves]
              exact answer.2 isStrict (separates.earlier leadsLater.toEvolves) spells
      | none =>
          refine .bind (induction (inScope.lasts leads.toEvolves) bindings stays validAfter
            roomAfter) ?_
          rintro _ ⟨later, draft⟩ validLater leadsLater _
          exact .pure validLater fun isStrict =>
            Evolves.errors_ne_nil leadsLater.toEvolves (answer isStrict)

/-- An instance that leaves nothing open is not generic. -/
theorem isFitting_instance (request : InstanceRequest) {start : Context} {id : DefinitionId}
    (startSound : start.Sound strict) (sound : context.Sound strict)
    (evolves : Evolves none start context) (generic : start.Loaded request.generic)
    (bindable : request.bindings.AreBindable strict scope start)
    (named : strict → start.SeparatesKeys → SpellsName reference.text.toList →
      reference.text = request.instanceName start)
    (found : context.cache.find? (request.instanceName start) = some id) :
    IsFitting strict reference scope id context where
  loaded := ⟨_, found⟩
  spelled isStrict separates spells := by
    rw [named isStrict (separates.earlier evolves) spells, found]
  generic isStrict clear isGeneric := by
    by_contra notScope
    have closed : request.IsClosed start := by
      refine ⟨generic, fun binding member => ?_⟩
      have holds := bindable binding member
      cases binding with
      | definition bound => exact ⟨bound, rfl, (holds isStrict).1⟩
      | parameter name =>
          exact absurd ((holds isStrict (evolves.errors_eq_nil clear.1)).lasts evolves clear.1)
            notScope
    have sameName : request.instanceName context = request.instanceName start :=
      closed.instanceName_eq fun id loaded =>
        (evolves.shapes clear.1 id (startSound.within loaded)).1
    refine clear.2.instances id ⟨_, found⟩ isGeneric request
      (closed.lasts fun _ loaded => loaded.lasts evolves) ?_
    rw [sameName]
    exact ((sound.loaded_names _ id found).eq_of_silent clear.1).symm

/-- An instance bears the name that the reference to it spells. -/
theorem text_eq_instanceName {start : Context} {generic : DefinitionId}
    {positions : List (String × Nat)} {bindings : TypeBindings}
    (isStrict : strict) (startSound : start.Sound strict) (sound : context.Sound strict)
    (evolves : Evolves none start context) (silent : context.log.errors = [])
    (found : start.cache.find? reference.name = some generic)
    (places : TypeArguments.Places reference
      ((start.definition generic).typeParameters.map (·.name)) positions)
    (inTurn : BindsInTurn context positions reference.typeArguments .empty bindings)
    (spells : SpellsName reference.text.toList) :
    reference.text = InstanceRequest.instanceName ⟨generic, bindings⟩ context := by
  obtain ⟨-, -, spelled⟩ := Reference.full_of_spells spells
  obtain ⟨rfl, length⟩ := places.ordinal fun argument member => (spelled argument member).1
  have distinct : ((start.definition generic).typeParameters.map (·.name)).Nodup :=
    startSound.once isStrict (evolves.errors_eq_nil silent) _ generic found
  have names := inTurn.names_eq distinct length fun argument member => (spelled argument member).2
  have named := (sound.loaded_names _ generic (evolves.find?_cache found)).eq_of_silent silent
  rw [Reference.text_of_spells spells, if_neg (by simpa using places.present),
    InstanceRequest.instanceName, names, named]

theorem resolves_withInstances (lasts : Lasts frontEnd strict Extra) (loads : Loads frontEnd strict Extra load twin)
    (harmless : frontEnd.registry.IsHarmless)
    (nestedResolves : ∀ below, depth = below + 1 →
      Resolves frontEnd strict Extra below (fitting strict) nested nestedTwin)
    (resolves : Resolves frontEnd strict Extra depth IsLoaded inner innerTwin) :
    Resolves frontEnd strict Extra depth (fitting strict) (withInstances frontEnd load nested inner)
      (withInstances frontEnd twin nestedTwin innerTwin) := by
  intro Allowed scope context reference inScope sound extra within
  refine .bind (resolves Allowed scope context reference inScope sound extra within) ?_
  rintro found ⟨reached, draft⟩ valid leads answer
  cases found with
  | none => exact .pure valid answer
  | some generic =>
      obtain ⟨⟨isLoaded, sameArguments⟩, decorated⟩ := answer
      refine .read rfl (.read rfl ?_)
      split
      · rename_i isPlain
        obtain ⟨notGeneric, bare⟩ := Bool.and_eq_true_iff.mp isPlain
        have plain : (reached.definition generic).isGeneric = false := by simpa using notGeneric
        have bare : reference.typeArguments = [] := by
          rw [← sameArguments]
          exact List.isEmpty_iff.mp bare
        exact .pure valid ⟨IsFitting.of_not_generic (.of_bare isLoaded bare) plain, decorated⟩
      · refine Drafting.agree_lift_bind (Discipline.lasting_const _ _) valid.1 valid.2
          ((TypeArguments.agree_positions draft _ _ strict).reported valid.1.1 valid.1.2
            lasts) ?_
        intro positions later validLater leadsLater within positionsFound
        have loadedLater : later.Loaded generic := Loaded.lasts leadsLater.toEvolves ⟨_, isLoaded⟩
        have inScopeLater := (inScope.lasts leads.toEvolves).lasts leadsLater.toEvolves
        cases positions with
        | none => exact .pure ⟨validLater, within⟩ (.none positionsFound)
        | some positions =>
            have places : TypeArguments.Places draft _ positions := positionsFound
            refine .bind (agree_bindAll
              (fun parameter context argument inScope valid =>
                agree_bind lasts loads nestedResolves inScope generic parameter valid)
              inScopeLater .empty (fun _ member => nomatch member) ⟨validLater, within⟩
              places.within) ?_
            rintro bindings ⟨bound, boundDraft⟩ validBound leadsBound bindable
            cases bindings with
            | none => exact .pure validBound (.none bindable)
            | some bindings =>
                obtain ⟨areBindable, inTurn⟩ := bindable
                refine Drafting.agree_lift_bind (Discipline.lasting_const _ _) validBound.1
                  validBound.2 (Loading.agree_orRecorded lasts _
                    (InstanceRequest.agree_load harmless lasts loads validBound.1.1
                      validBound.1.2 areBindable)) ?_
                intro loaded last validLast leadsLast within made
                cases loaded with
                | none => exact .pure ⟨validLast, within⟩ (.none made)
                | some id =>
                    refine .read rfl (agree_decorated ⟨validLast, within⟩ _
                      (isFitting_instance ⟨generic, bindings⟩ validBound.1.1 validLast.1
                        leadsLast.toEvolves (Loaded.lasts leadsBound.toEvolves loadedLater)
                        areBindable (fun isStrict separates spells => ?_) made))
                    have evolves : Evolves none reached bound :=
                      (Advances.trans leadsLater leadsBound).toEvolves
                    have inTurn := inTurn isStrict separates
                    rw [show draft.typeArguments = _ from sameArguments] at inTurn
                    exact text_eq_instanceName isStrict valid.1.1 validBound.1.1 evolves
                      separates.silent isLoaded (places.of_typeArguments sameArguments) inTurn
                      spells

/-! ## Hoisting -/

section Hoisting

/-! Hoisting keeps every discipline that loads keep. -/

variable {rules : Discipline Context}
  (loads : ∀ name context, rules.Valid context →
    Agree rules context (load name) (twin name) fun _ _ => True)
include loads

theorem agree_peek (valid : rules.Valid context) (name : String) :
    Agree rules context (peek load name) (peek twin name) fun _ _ => True := by
  refine .bind (loads name context valid).outcome ?_
  intro result reached valid _ ended
  cases result with
  | ok id => exact .read rfl (.pure valid trivial)
  | error error =>
      cases error with
      | fatal diagnostic => exact .pure valid trivial
      | aborted => exact .fail valid ended
      | internal error => exact .fail valid ended

theorem agree_argumentNames? (valid : rules.Valid context) (reference : Reference) :
    Agree rules context (argumentNames? load reference) (argumentNames? twin reference)
      fun _ _ => True := by
  unfold argumentNames?
  split
  · exact .pure valid trivial
  · split
    · exact .pure valid trivial
    · refine .bind (agree_peek loads valid _) ?_
      intro found reached valid _ _
      cases found with
      | none => exact .pure valid trivial
      | some target =>
          dsimp only
          split
          · exact .pure valid trivial
          · exact .pure valid trivial

omit loads in
/-- Hoisting gives an argument another name only. -/
theorem exists_of_mem_hoisted {parameter : String} {names : List String}
    {arguments : List Argument} {hoisted : Argument}
    (member : hoisted ∈ List.zipWith (hoistedArgument parameter) names arguments) :
    ∃ argument ∈ arguments, hoisted.value = argument.value := by
  rw [← List.map_uncurry_zip_eq_zipWith] at member
  obtain ⟨⟨name, argument⟩, paired, rfl⟩ := List.mem_map.mp member
  exact ⟨argument, (List.of_mem_zip paired).2, rfl⟩

theorem agree_takeArguments (parameters : List String) (position : Nat) {argument : TypeArgument}
    (valid : (rules.drafting fun _ => TypeArgument.IsWithin depth Allowed).Valid
      (context, argument)) :
    Agree (rules.drafting fun _ => TypeArgument.IsWithin depth Allowed) (context, argument)
      (takeArguments load parameters position) (takeArguments twin parameters position)
      fun taken _ => ∀ argument ∈ taken, Allowed (Argument.value argument) := by
  refine .read rfl ?_
  split
  · rename_i reference parameter isDefinition _
    split
    · exact .pure valid nofun
    · refine Drafting.agree_lift_bind (Discipline.lasting_const _ _) valid.1 valid.2
        (agree_argumentNames? loads valid.1 reference) ?_
      intro names reached valid _ within _
      cases names with
      | none => exact .pure ⟨valid, within⟩ nofun
      | some names =>
          have nested := within.nested
          have values := within.values
          rw [TypeArgument.nesting_of_definition isDefinition, Reference.nesting_eq] at nested
          rw [TypeArgument.values_of_definition isDefinition, Reference.values_eq,
            List.forall_mem_append, List.forall_mem_map] at values
          refine .through (fun _ _ => True)
            (Drafting.agree_modifyDraft valid ⟨nested, ?_⟩ trivial) ?_
          · rw [TypeArgument.values_of_definition rfl, Reference.values_eq]
            exact values.2
          · rintro _ ⟨later, draft⟩ valid _ _
            refine .pure valid fun argument member => ?_
            obtain ⟨original, isArgument, same⟩ := exists_of_mem_hoisted member
            exact same ▸ values.1 original isArgument
  · exact .pure valid nofun

theorem agree_hoist
    (valid : (rules.drafting fun _ => Reference.IsWithin depth Allowed).Valid
      (context, reference)) :
    Agree (rules.drafting fun _ => Reference.IsWithin depth Allowed) (context, reference)
      (hoist load) (hoist twin) fun _ _ => True := by
  refine .read rfl ?_
  refine Drafting.agree_lift_bind (Discipline.lasting_const _ _) valid.1 valid.2
    (agree_peek loads valid.1 _) ?_
  intro found reached validReached _ within _
  cases found with
  | none => exact .pure ⟨validReached, within⟩ trivial
  | some generic =>
      obtain ⟨arguments, typeArguments⟩ := Reference.isWithin_iff.mp within
      have each := Drafting.agree_each
        (fun _ => Discipline.lasting_const rules
          (TypeArgument.IsWithin depth Allowed))
        (fun _ taken => Discipline.lasting_const _ fun _ =>
          ∀ argument ∈ taken, Allowed (Argument.value argument)) validReached typeArguments
        fun index later argument valid _ within =>
          (agree_takeArguments loads (generic.typeParameters.map (·.name)) index
            ⟨valid, within⟩)
      refine .bind (Drafting.agree_onPart each fun _ typeArguments _ _ related =>
        Reference.isWithin_iff.mpr ⟨arguments, fun argument member => ?_⟩) ?_
      · obtain ⟨_, -, within⟩ := exists_left_of_forall₂ related argument member
        exact within
      rintro hoisted ⟨later, draft⟩ valid _ ⟨changed, rfl, -, visited⟩
      obtain ⟨arguments, typeArguments⟩ := Reference.isWithin_iff.mp valid.2
      refine Drafting.agree_modifyDraft valid.1 (Reference.isWithin_iff.mpr
        ⟨fun argument member => ?_, typeArguments⟩) trivial
      rcases List.mem_append.mp member with old | new
      · exact arguments argument old
      · obtain ⟨taken, given, among⟩ := List.mem_flatten.mp new
        obtain ⟨_, -, allowed⟩ := exists_right_of_forall₂ visited.values taken given
        exact allowed argument among

end Hoisting

/-- Where there are value arguments to be taken out, the reference spells no name. -/
theorem not_spells_of_hasValueArguments
    (has : reference.typeArguments.any hasValueArguments = true) :
    ¬SpellsName reference.text.toList := by
  intro spells
  obtain ⟨argument, member, present⟩ := List.any_eq_true.mp has
  have spelled := ((Reference.full_of_spells spells).2.2 argument member).2
  obtain ⟨name, value, span⟩ := argument
  cases value with
  | parameter parameter => exact nomatch present
  | definition inner =>
      have bare := (Reference.full_of_spells spelled).2.1
      simp [hasValueArguments, bare] at present

theorem resolves_withHoisting (loads : Loads frontEnd strict Extra load twin)
    (resolves : Resolves frontEnd strict Extra depth (fitting strict) inner innerTwin) :
    Resolves frontEnd strict Extra depth (fitting strict) (withHoisting load inner)
      (withHoisting twin innerTwin) := by
  intro Allowed scope context reference inScope sound extra within
  refine .read rfl ?_
  split
  · rename_i has
    refine .bind (agree_hoist loads.kept ⟨⟨sound, extra⟩, within⟩) ?_
    rintro _ ⟨reached, draft⟩ valid leads _
    exact (resolves Allowed scope reached draft (inScope.lasts leads.toEvolves) valid.1.1
      valid.1.2 valid.2).mono fun _ _ _ _ answer => answer.of_text fun spells =>
        absurd spells (not_spells_of_hasValueArguments has)
  · exact resolves Allowed scope context reference inScope sound extra within

/-! ## Copies, names and the cache -/

/-- A copy is generic only if the definition is. A reference that asks for one spells no name. -/
theorem isFitting_copy {before : Context} {target id : DefinitionId} {bindings : ValueBindings}
    (beforeSound : before.Sound strict) (sound : context.Sound strict)
    (evolves : Evolves none before context) (isFitting : IsFitting strict reference scope target before)
    (unspelled : ¬SpellsName reference.text.toList)
    (found : context.cache.find?
      (Definition.substitutedName (before.definition target).name bindings) = some id) :
    IsFitting strict reference scope id context where
  loaded := ⟨_, found⟩
  spelled _ _ spells := absurd spells unspelled
  generic isStrict clear generic := by
    have lasting := isFitting.lasts beforeSound evolves
    cases targetShape : (context.definition target).isGeneric with
    | true => exact lasting.generic isStrict clear targetShape
    | false =>
        have same := (evolves.shapes clear.1 target (beforeSound.within isFitting.loaded)).1
        refine absurd ?_ (clear.2.copies id ⟨_, found⟩ generic target lasting.loaded targetShape
          bindings)
        rw [same]
        exact ((sound.loaded_names _ id found).eq_of_silent clear.1).symm

/-- What spells a name gives no values, so it asks for no copy. -/
theorem not_spells_of_bindings? {definition : Definition} {draft : Reference}
    {bindings : ValueBindings}
    (values : ∀ value ∈ draft.values, value ∈ reference.values)
    (asked : definition.bindings? draft false = some bindings) :
    ¬SpellsName reference.text.toList := by
  intro spells
  rw [Reference.values_of_spells reference spells] at values
  have noArguments : draft.arguments = [] := by
    rw [Reference.values_eq] at values
    exact List.eq_nil_iff_forall_not_mem.mpr fun argument member =>
      nomatch values argument.value (List.mem_append_left _ (List.mem_map_of_mem member))
  simp [Definition.bindings?, noArguments] at asked

theorem resolves_withSubstitution (lasts : Lasts frontEnd strict Extra) (loads : Loads frontEnd strict Extra load twin)
    (resolves : Resolves frontEnd strict Extra depth (fitting strict) inner innerTwin) :
    Resolves frontEnd strict Extra depth (fitting strict) (withSubstitution load inner)
      (withSubstitution twin innerTwin) := by
  intro Allowed scope context reference inScope sound extra within
  -- No layer puts values into the reference, so one that spells a name stays without arguments.
  have kept : reference.IsWithin depth fun value => Allowed value ∧ value ∈ reference.values :=
    ⟨within.nested, fun value member => ⟨within.values value member, member⟩⟩
  refine Drafting.agree_under (Agree.bind
    (resolves _ scope context reference inScope sound extra kept) ?_)
    (fun _ valid _ => valid) (fun _ _ leads => leads) (fun _ fails => fails)
    fun _ _ _ _ within => ⟨within.nested, fun value member => (within.values value member).1⟩
  rintro found ⟨reached, draft⟩ valid _ answer
  cases found with
  | none => exact .pure valid answer
  | some target =>
      refine .read rfl ?_
      refine Drafting.agree_lift_bind (Discipline.lasting_const _ _) valid.1 valid.2
        (agree_substituteValues lasts loads valid.1.1 valid.1.2 draft target false) ?_
      intro substitution later validLater leads within holds
      cases substitution with
      | notApplicable =>
          exact .pure ⟨validLater, within⟩
            ⟨IsFitting.lasts valid.1.1 leads.toEvolves answer.1, answer.2⟩
      | failed => exact .pure ⟨validLater, within⟩ (.none holds)
      | substituted id =>
          obtain ⟨bindings, asked, found⟩ := holds
          have unspelled := not_spells_of_bindings?
            (fun value member => (valid.2.values value member).2) asked
          exact .read rfl (agree_decorated ⟨validLater, within⟩ _
            (isFitting_copy valid.1.1 validLater.1 leads.toEvolves answer.1 unspelled found))

theorem resolves_withImports
    (resolves : Resolves frontEnd strict Extra depth (fitting strict) inner innerTwin) :
    Resolves frontEnd strict Extra depth (fitting strict) (withImports frontEnd inner)
      (withImports frontEnd innerTwin) := by
  intro Allowed scope context reference inScope sound extra within
  cases scope with
  | none => exact resolves Allowed none context reference inScope sound extra within
  | some id =>
      refine .read rfl ?_
      refine .through (fun _ pair => pair.2 = Qualification.qualify
          (frontEnd.definitionExists context) (context.definition id) reference)
        (Drafting.agree_modifyDraft ⟨sound, extra⟩ (Qualification.isWithin_qualify _ _ within) rfl)
        ?_
      rintro _ ⟨reached, draft⟩ valid leads qualified
      exact (resolves Allowed (some id) reached draft (inScope.lasts leads.toEvolves) valid.1.1
        valid.1.2 valid.2).mono fun _ _ _ _ answer => answer.of_text fun spells =>
          (congrArg Reference.text qualified).trans (Reference.text_qualify _ _ reference spells)

/-- What the cache has for a reference. -/
def remembered? (scope : Option DefinitionId) (context : Context) (reference : Reference) :
    Option DefinitionId :=
  context.references.find? (cacheKey reference (scopeDefinition? scope context))

/-- What is done with an answer that was not in the cache. -/
def remember (key : String) (found : Option DefinitionId) :
    Revising Reference (Option DefinitionId) :=
  match found with
  | none => return none
  | some id => do
      Loading.update fun context =>
        { context with references := context.references.insert key id }
      return some id

theorem withCache_apply (inner : Resolver) (scope : Option DefinitionId) (context : Context)
    (reference : Reference) :
    withCache inner scope (context, reference) =
      match remembered? scope context reference with
      | some id =>
          (.ok (some id), (context,
            { reference with resolved := some ⟨(context.definition id).name, some id⟩ }))
      | none =>
          (inner scope >>= remember (cacheKey reference (scopeDefinition? scope context)))
            (context, reference) := by
  have read : (liftM Loading.context : Revising Reference Context) (context, reference) =
      (.ok context, (context, reference)) := rfl
  have drafted : (Drafting.draft : Revising Reference Reference) (context, reference) =
      (.ok reference, (context, reference)) := rfl
  unfold withCache remembered?
  rw [Step.bind_of_ok read, Step.bind_of_ok drafted]
  generalize cacheKey reference (scopeDefinition? scope context) = key
  cases context.references.find? key with
  | some id => rfl
  | none => rfl

theorem cacheKey_of_scope (owner : DefinitionId) :
    cacheKey reference (scopeDefinition? (some owner) context) =
      (context.definition owner).name ++ "|" ++ reference.text :=
  rfl

/-- What was answered is remembered. -/
theorem withCache_remembers {reached : Context} {form : Reference} {id : DefinitionId}
    (ends : withCache inner scope (context, reference) = (.ok (some id), (reached, form))) :
    reached.references.find? (cacheKey reference (scopeDefinition? scope context)) = some id := by
  rw [withCache_apply] at ends
  cases found : remembered? scope context reference with
  | some other =>
      rw [found] at ends
      cases ends
      exact found
  | none =>
      rw [found] at ends
      obtain ⟨answer, ⟨middle, draft⟩, -, remembers⟩ := Step.ok_of_bind ends
      cases answer with
      | none => cases remembers
      | some other =>
          cases remembers
          exact (Table.find?_insert ..).trans (if_pos rfl)

/-- A key tells the name of the definition that it belongs to, which is what comes before the first
bar, and the text of the reference. -/
theorem eq_of_append_bar {left right leftRest rightRest : String} (leftWord : '|' ∉ left.toList)
    (rightWord : '|' ∉ right.toList)
    (equal : left ++ "|" ++ leftRest = right ++ "|" ++ rightRest) :
    left = right ∧ leftRest = rightRest := by
  have before : ∀ {name : String} (rest : String), '|' ∉ name.toList →
      (name ++ "|" ++ rest).toList.takeWhile (· != '|') = name.toList := by
    intro name rest word
    have each : ∀ character ∈ name.toList, (character != '|') = true :=
      fun character member => bne_iff_ne.mpr fun isBar => word (isBar ▸ member)
    rw [String.toList_append, String.toList_append, List.append_assoc,
      List.takeWhile_append_of_pos each]
    exact List.append_nil _
  have same : left = right := by
    rw [← String.toList_inj, ← before leftRest leftWord, equal, before rightRest rightWord]
  subst same
  refine ⟨rfl, ?_⟩
  have characters := congrArg String.toList equal
  simp only [String.toList_append] at characters
  exact String.toList_inj.mp (List.append_cancel_left characters)

/-- What is remembered for a definition was found for one that is generic or not as it is, by a
reference that reads the same. -/
theorem isFitting_remembered {id : DefinitionId} (inScope : InScope strict scope context)
    (sound : context.Sound strict) (found : remembered? scope context reference = some id) :
    IsFitting strict reference scope id context where
  loaded := sound.remembered _ id found
  spelled isStrict separates spells := by
    obtain ⟨holder, within, rfl⟩ := inScope isStrict
    obtain ⟨other, otherWithin, original, equal, spelled⟩ :=
      sound.spelled isStrict separates _ id found
    have sameText := (eq_of_append_bar (separates.separated holder within)
      (separates.separated other otherWithin) equal).2
    rw [sameText] at spells ⊢
    exact spelled spells
  generic isStrict clear generic := by
    obtain ⟨holder, within, rfl⟩ := inScope isStrict
    obtain ⟨other, otherWithin, otherGeneric, text, equal⟩ :=
      sound.keyed isStrict clear _ id found generic
    have sameName := (eq_of_append_bar (clear.2.separated holder within)
      (clear.2.separated other otherWithin) equal).1
    exact ⟨holder, within, rfl,
      (clear.2.alike holder within other otherWithin sameName).trans otherGeneric⟩

/-- The key of a reference in a generic definition is a key of one. -/
theorem isKeyOfGeneric_cacheKey {before : Context} (evolves : Evolves none before context)
    (inScope : InScope strict scope before) (isStrict : strict) (silent : context.log.errors = [])
    (generic : context.IsGenericScope scope) :
    context.IsKeyOfGeneric (cacheKey reference (scopeDefinition? scope before)) := by
  obtain ⟨holder, within, rfl⟩ := inScope isStrict
  obtain ⟨other, otherWithin, same, otherGeneric⟩ := generic
  cases same
  refine ⟨holder, otherWithin, otherGeneric, reference.text, ?_⟩
  rw [(evolves.shapes silent holder within).1]
  rfl

/-- The key of a reference tells it. -/
theorem isKeyOfName_cacheKey {before : Context} {id : DefinitionId}
    (evolves : Evolves none before context) (inScope : InScope strict scope before)
    (isStrict : strict) (separates : context.SeparatesKeys)
    (isFitting : IsFitting strict reference scope id context) :
    context.IsKeyOfName (cacheKey reference (scopeDefinition? scope before)) id := by
  obtain ⟨holder, within, rfl⟩ := inScope isStrict
  refine ⟨holder, Nat.lt_of_lt_of_le within evolves.size, reference, ?_,
    isFitting.spelled isStrict separates⟩
  rw [(evolves.shapes separates.silent holder within).1]
  rfl

/-- What was not remembered before is not forgotten by being remembered. -/
theorem advances_remember {before : Context} {key : String} {id : DefinitionId}
    (advances : Advances frontEnd strict none before context) (loaded : context.Loaded id)
    (unknown : before.references.find? key = none) :
    Advances frontEnd strict none before
      { context with references := context.references.insert key id } :=
  { advances with
    path := .remembered key advances.path loaded
    references := by
      intro other known found
      have different : key ≠ other := by
        rintro rfl
        exact nomatch unknown.symm.trans found
      exact (Table.find?_insert ..).trans ((if_neg different).trans
        (advances.references other known found)) }

theorem resolves_withCache (lasts : Lasts frontEnd strict Extra)
    (resolves : Resolves frontEnd strict Extra depth (fitting strict) inner innerTwin) :
    Resolves frontEnd strict Extra depth (fitting strict) (withCache inner) (withCache innerTwin) := by
  intro Allowed scope context reference inScope sound extra within
  cases found : remembered? scope context reference with
  | some id =>
      have run : ∀ inner, withCache inner scope (context, reference) = (.ok (some id), (context,
          { reference with resolved := some ⟨(context.definition id).name, some id⟩ })) :=
        fun inner => by rw [withCache_apply, found]
      exact .ends (run inner) (run innerTwin) ⟨⟨sound, extra⟩, within.congr rfl rfl⟩
        (Advances.refl context) ⟨isFitting_remembered inScope sound found, fun _ found => found⟩
  | none =>
      have run : ∀ inner, withCache inner scope (context, reference) =
          (inner scope >>= remember (cacheKey reference (scopeDefinition? scope context)))
            (context, reference) :=
        fun inner => by rw [withCache_apply, found]
      have agree := resolves Allowed scope context reference inScope sound extra within
      have same := agree.same
      have valid := agree.valid
      have leads := agree.leads
      have ended := agree.ended
      rcases outcome : inner scope (context, reference) with ⟨result, reached, draft⟩
      rw [outcome] at same valid leads ended
      rcases result with error | _ | id
      · exact .ends ((run inner).trans (Step.bind_of_error outcome))
          ((run innerTwin).trans (Step.bind_of_error same.symm)) valid leads ended
      · exact .ends ((run inner).trans (Step.bind_of_ok outcome))
          ((run innerTwin).trans (Step.bind_of_ok same.symm)) valid leads ended
      · obtain ⟨isFitting, decorated⟩ := ended
        have isFitting : IsFitting strict reference scope id reached := isFitting
        have advances := advances_remember leads isFitting.loaded found
        have remembered := valid.1.1.remember
          (cacheKey reference (scopeDefinition? scope context)) isFitting.loaded
          (fun isStrict clear generic => isKeyOfGeneric_cacheKey leads.toEvolves inScope isStrict
            clear.1 (isFitting.generic isStrict clear generic))
          fun isStrict separates =>
            isKeyOfName_cacheKey leads.toEvolves inScope isStrict separates isFitting
        exact .ends ((run inner).trans (Step.bind_of_ok outcome))
          ((run innerTwin).trans (Step.bind_of_ok same.symm))
          ⟨⟨remembered, lasts advances extra⟩, valid.2⟩ advances
          ⟨⟨⟨isFitting.loaded, fun isStrict separates =>
              isFitting.spelled isStrict ⟨separates.silent, separates.separated⟩⟩,
            fun isStrict clear => isFitting.generic isStrict
              (valid.1.1.isClear_of_same clear rfl rfl rfl)⟩, decorated⟩

/-! ## The layers together -/

theorem resolves_layers (lasts : Lasts frontEnd strict Extra) (loads : Loads frontEnd strict Extra load twin)
    (harmless : frontEnd.registry.IsHarmless)
    (nestedResolves : ∀ below, depth = below + 1 →
      Resolves frontEnd strict Extra below (fitting strict) nested nestedTwin) :
    Resolves frontEnd strict Extra depth (fitting strict) (ofLayers frontEnd load nested layers)
      (ofLayers frontEnd twin nestedTwin layers) :=
  resolves_withCache lasts (resolves_withImports (resolves_withSubstitution lasts loads
    (resolves_withHoisting loads (resolves_withInstances lasts loads harmless
      nestedResolves (resolves_withArguments lasts (resolves_named lasts loads))))))

theorem resolves_nestedTo (lasts : Lasts frontEnd strict Extra) (loads : Loads frontEnd strict Extra load twin)
    (harmless : frontEnd.registry.IsHarmless) (depth : Nat) :
    Resolves frontEnd strict Extra depth (fitting strict) (nestedTo frontEnd load depth)
      (nestedTo frontEnd twin depth) := by
  induction depth with
  | zero => exact resolves_layers lasts loads harmless nofun
  | succ depth induction =>
      refine resolves_layers lasts loads harmless fun below equal => ?_
      cases equal
      exact induction

/-- Full resolution asks the cache first. -/
theorem exists_full_eq (frontEnd : FrontEnd) (load : String → Loading DefinitionId)
    (scope : Option DefinitionId) (context : Context) (reference : Reference) :
    ∃ inner, full frontEnd load scope (context, reference) =
      withCache inner scope (context, reference) := by
  have drafted : (Drafting.draft : Revising Reference Reference) (context, reference) =
      (.ok reference, (context, reference)) := rfl
  have layered : ∃ inner, nestedTo frontEnd load reference.nesting = withCache inner := by
    cases reference.nesting with
    | zero => exact ⟨_, rfl⟩
    | succ depth => exact ⟨_, rfl⟩
  obtain ⟨inner, equal⟩ := layered
  refine ⟨inner, ?_⟩
  unfold full
  rw [Step.bind_of_ok drafted, equal]

/-- Full resolution puts no value into a reference. -/
theorem agree_full (lasts : Lasts frontEnd strict Extra) (loads : Loads frontEnd strict Extra load twin)
    (harmless : frontEnd.registry.IsHarmless) (scope : Option DefinitionId)
    (inScope : InScope strict scope context) (sound : context.Sound strict)
    (extra : Extra context) (reference : Reference) :
    Agree ((evolving frontEnd strict none Extra).drafting fun _ form =>
        ∀ value ∈ form.values, value ∈ reference.values) (context, reference)
      (full frontEnd load scope) (full frontEnd twin scope)
      (Found strict (fitting strict) reference scope) := by
  refine .read rfl ?_
  exact Drafting.agree_under
    (resolves_nestedTo lasts loads harmless reference.nesting (· ∈ reference.values) scope
      context reference inScope sound extra ⟨Nat.le_refl _, fun _ member => member⟩)
    (fun _ valid _ => valid) (fun _ _ leads => leads) (fun _ fails => fails)
    fun _ _ _ _ within => within.values

end Resolver

end Adl
