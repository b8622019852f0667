import Adl.Proofs.Binding.Conformance
import Adl.Proofs.Binding.Resting

namespace Adl

open Step Context

/-! A composite of which the bindings were accepted against the types of its placeholders, once
definitions that conform to these types fill the placeholders. -/

namespace Definition

variable {extends? : String → String → Bool} {before after : Context}
  {generic filled : Definition} {name : String}

/-- What a sub-component designates before and after placeholders are filled: definitions with the
same interfaces, a type and a definition that can take its place, or nothing any more. -/
inductive Takes (extends? : String → String → Bool) (before after : Context)
    (bindings : List Binding) (name : String) : Option DefinitionId → Option DefinitionId → Prop
  | nothing {first : Option DefinitionId} : Takes extends? before after bindings name first none
  | same {first second : DefinitionId} :
      (after.definition second).interfaces = (before.definition first).interfaces →
      Takes extends? before after bindings name (some first) (some second)
  | conforming {type value : DefinitionId} (span : Span) :
      Conformance.problems extends? (after.definition value) (before.definition type) span = [] →
      (∀ interface ∈ (before.definition type).interfaces, interface.IsSized) →
      (after.definition value).Completes (before.definition type) bindings name →
      Takes extends? before after bindings name (some type) (some value)

/-- The one composite is the other with placeholders filled. -/
structure Fills (extends? : String → String → Bool) (before after : Context)
    (generic filled : Definition) : Prop where
  interfaces : filled.interfaces = generic.interfaces
  internalInterfaces : filled.internalInterfaces = generic.internalInterfaces
  bindings : filled.bindings = generic.bindings
  kind : filled.kind = generic.kind
  isAbstract : filled.isAbstract = generic.isAbstract
  names : filled.components.map (·.name) = generic.components.map (·.name)
  takes : ∀ name, Takes extends? before after generic.bindings name
    (generic.componentDefinition? name) (filled.componentDefinition? name)

/-- A binding that stands for others is one between whole collections of known size. -/
theorem of_expansion?_some {definition : Definition} {context : Context} {binding : Binding}
    {count : Nat} (stands : definition.expansion? context binding = some count) :
    binding.client.index = none ∧ binding.server.index = none ∧ ∃ client server,
      definition.endpointInterface context binding.client = .found client ∧
      definition.endpointInterface context binding.server = .found server ∧
      client.isCollection = true ∧ server.isCollection = true ∧ client.IsSized ∧ server.IsSized := by
  have sized : ∀ {interface : Interface} {count : Nat}, interface.elementCount? = some count →
      interface.IsSized := by
    intro interface count counts unknown
    simp [Interface.elementCount?, unknown] at counts
  unfold expansion? at stands
  split at stands
  · cases stands
  · rename_i unindexed
    obtain ⟨clientIndex, serverIndex⟩ := not_or.mp (mt Bool.or_eq_true_iff.mpr unindexed)
    split at stands
    · rename_i client server clientFound serverFound
      split at stands
      · rename_i collections
        obtain ⟨clientCollection, serverCollection⟩ := Bool.and_eq_true_iff.mp collections
        split at stands
        · rename_i emitted received emits receives
          exact ⟨by simpa using clientIndex, by simpa using serverIndex, client, server,
            clientFound, serverFound, clientCollection, serverCollection, sized emits,
            sized receives⟩
        · cases stands
      · cases stands
    · cases stands

theorem isNone_component?_iff {definition : Definition} :
    (definition.component? name).isNone = true ↔ name ∉ definition.components.map (·.name) := by
  simp [component?]

namespace Fills

theorem insideInterface? (fills : Fills extends? before after generic filled) (name : String) :
    filled.insideInterface? name = generic.insideInterface? name := by
  simp only [Definition.insideInterface?, internalInterface?, interface?, fills.interfaces,
    fills.internalInterfaces]

theorem isNone_component? (fills : Fills extends? before after generic filled) (name : String) :
    (filled.component? name).isNone = (generic.component? name).isNone := by
  rw [Bool.eq_iff_iff, isNone_component?_iff, isNone_component?_iff, fills.names]

/-- Of an end of which nothing could be said, nothing can be said. -/
theorem unresolved (fills : Fills extends? before after generic filled) {endpoint : Endpoint}
    (unresolved : generic.endpointInterface before endpoint = .unresolved) :
    filled.endpointInterface after endpoint = .unresolved := by
  obtain ⟨outside, designated⟩ := endpointInterface_eq_unresolved unresolved
  have takes := fills.takes endpoint.component
  rw [designated] at takes
  unfold endpointInterface at unresolved ⊢
  rw [outside, fills.isNone_component?]
  rw [outside] at unresolved
  cases absent : (generic.component? endpoint.component).isNone with
  | true => simp [absent] at unresolved
  | false =>
      cases other : filled.componentDefinition? endpoint.component with
      | none => rfl
      | some second =>
          rw [other] at takes
          exact nomatch takes

/-- Where an end of a binding designated an interface, it designates one that replaces it, if its
sub-component still designates a definition. -/
theorem unresolved_or_found (transitive : IsTransitive extends?)
    (fills : Fills extends? before after generic filled) {binding : Binding}
    (member : binding ∈ generic.bindings) {endpoint : Endpoint}
    (isEnd : endpoint ∈ [binding.client, binding.server]) {declared : Interface}
    (found : generic.endpointInterface before endpoint = .found declared) :
    filled.endpointInterface after endpoint = .unresolved ∨
      ∃ offered, filled.endpointInterface after endpoint = .found offered ∧
        offered.Replaces extends? endpoint.index declared := by
  rw [endpointInterface_eq_found_iff] at found
  simp only [endpointInterface_eq_found_iff]
  obtain ⟨inside, isDeclared⟩ | ⟨outside, first, designated, isDeclared⟩ := found
  · exact .inr ⟨declared, .inl ⟨inside, (fills.insideInterface? _).trans isDeclared⟩,
      Interface.Replaces.refl extends? endpoint.index declared⟩
  · have takes := fills.takes endpoint.component
    rw [designated] at takes
    cases other : filled.componentDefinition? endpoint.component with
    | none =>
        have present : (filled.component? endpoint.component).isNone = false := by
          rw [fills.isNone_component?]
          obtain ⟨component, isPart, -⟩ := Option.bind_eq_some_iff.mp designated
          rw [isPart]
          rfl
        refine .inl ?_
        unfold endpointInterface
        rw [outside, present, other]
        rfl
    | some second =>
        refine .inr ?_
        rw [other] at takes
        cases takes with
        | same interfaces =>
            have stays : (after.definition second).interface? endpoint.interface = some declared := by
              rw [interface?, interfaces]
              exact isDeclared
            exact ⟨declared, .inr ⟨outside, second, rfl, stays⟩,
              Interface.Replaces.refl extends? endpoint.index declared⟩
        | conforming span conforms sized completes =>
            obtain ⟨offered, isOffered, replaces⟩ :=
              completes.replaces transitive conforms sized member isEnd rfl isDeclared
            exact ⟨offered, .inr ⟨outside, second, rfl, isOffered⟩, replaces⟩

/-- An end of a binding designates what replaces that which it designated, unless nothing can be
said of it. -/
theorem unresolved_or_replaces (transitive : IsTransitive extends?)
    (fills : Fills extends? before after generic filled) {binding : Binding}
    (member : binding ∈ generic.bindings) {endpoint : Endpoint}
    (isEnd : endpoint ∈ [binding.client, binding.server])
    (known : Binding.IsKnown generic before endpoint) :
    filled.endpointInterface after endpoint = .unresolved ∨ ∃ offered declared,
      filled.endpointInterface after endpoint = .found offered ∧
        generic.endpointInterface before endpoint = .found declared ∧
        offered.Replaces extends? endpoint.index declared := by
  rcases known with unresolved | ⟨declared, declaredFound⟩
  · exact .inl (fills.unresolved unresolved)
  · refine (fills.unresolved_or_found transitive member isEnd declaredFound).imp_right ?_
    rintro ⟨offered, found, replaces⟩
    exact ⟨offered, declared, found, declaredFound, replaces⟩

/-- Bindings that were accepted are accepted. -/
theorem exists_check (transitive : IsTransitive extends?)
    (fills : Fills extends? before after generic filled) {binding : Binding}
    (member : binding ∈ generic.bindings) {castRequired : Bool}
    (accepts : binding.Accepts extends? generic before castRequired) :
    ∃ castRequired, binding.check filled after extends? = .ok castRequired := by
  have isServer : binding.server ∈ [binding.client, binding.server] := by simp
  unfold Binding.check Binding.lookup
  rcases fills.unresolved_or_replaces transitive member List.mem_cons_self accepts.client with
      clientUnresolved | ⟨used, client, usedFound, clientFound, clientReplaces⟩ <;>
    rcases fills.unresolved_or_replaces transitive member isServer accepts.server with
      serverUnresolved | ⟨provided, server, providedFound, serverFound, serverReplaces⟩
  · rw [clientUnresolved, serverUnresolved]
    exact ⟨_, rfl⟩
  · rw [clientUnresolved, providedFound]
    exact ⟨_, rfl⟩
  · rw [usedFound, serverUnresolved]
    exact ⟨_, rfl⟩
  · have fits := Compatibility.fitting_of_check
      (accepts.compatible client server clientFound serverFound)
    rw [usedFound, providedFound]
    exact ⟨_, (serverReplaces.asServer (clientReplaces.asClient fits)).check⟩

/-- What an end of a binding designates replaces what it designated, if that was known. -/
theorem exists_declared (transitive : IsTransitive extends?)
    (fills : Fills extends? before after generic filled) {binding : Binding}
    (member : binding ∈ generic.bindings) {endpoint : Endpoint}
    (isEnd : endpoint ∈ [binding.client, binding.server])
    (known : Binding.IsKnown generic before endpoint) {offered : Interface}
    (found : filled.endpointInterface after endpoint = .found offered) :
    ∃ declared, generic.endpointInterface before endpoint = .found declared ∧
      offered.Replaces extends? endpoint.index declared := by
  rcases fills.unresolved_or_replaces transitive member isEnd known with
    unresolved | ⟨other, declared, otherFound, declaredFound, replaces⟩
  · exact nomatch unresolved.symm.trans found
  · cases found.symm.trans otherFound
    exact ⟨declared, declaredFound, replaces⟩

/-- A binding that stood for no others stands for no others: one between whole collections would
have been expanded, or refused. -/
theorem expansion?_eq_none (transitive : IsTransitive extends?)
    (fills : Fills extends? before after generic filled) {binding : Binding}
    (member : binding ∈ generic.bindings) {castRequired : Bool}
    (accepts : binding.Accepts extends? generic before castRequired)
    (expanded : generic.expansion? before binding = none) :
    filled.expansion? after binding = none := by
  by_contra further
  obtain ⟨count, stands⟩ := Option.ne_none_iff_exists'.mp further
  obtain ⟨clientIndex, serverIndex, used, provided, usedFound, providedFound, usedCollection,
    providedCollection, usedSized, providedSized⟩ := of_expansion?_some stands
  obtain ⟨client, clientFound, clientReplaces⟩ :=
    fills.exists_declared transitive member List.mem_cons_self accepts.client usedFound
  obtain ⟨server, serverFound, serverReplaces⟩ :=
    fills.exists_declared transitive member (by simp) accepts.server providedFound
  have clientCollection : client.isCollection = true :=
    (congrArg not clientReplaces.isSingleton.symm).trans usedCollection
  have serverCollection : server.isCollection = true :=
    (congrArg not serverReplaces.isSingleton.symm).trans providedCollection
  obtain ⟨emitted, emits⟩ := (clientReplaces.isSized usedSized).exists_elementCount
  obtain ⟨received, receives⟩ := (serverReplaces.isSized providedSized).exists_elementCount
  obtain ⟨mandatory, exceeds⟩ := exceeds_of_expansion?_none expanded clientFound serverFound
    clientIndex serverIndex clientCollection serverCollection emits receives
  have fits := Compatibility.fitting_of_check
    (accepts.compatible client server clientFound serverFound)
  have whole : BoundEnd.isSingle ⟨binding.client.text, client, binding.client.index⟩ = false := by
    simpa [BoundEnd.isSingle, clientIndex, Interface.isCollection] using clientCollection
  exact absurd (fits.enough whole mandatory emitted received emits receives)
    (Nat.not_le.mpr exceeds)

/-- Where nothing is unbound, nothing becomes unbound. -/
theorem unbound_eq_nil (fills : Fills extends? before after generic filled)
    (covered : generic.unbound before = []) : filled.unbound after = [] := by
  have bound : filled.isBound = generic.isBound :=
    isBound_congr (congrArg (List.map (·.client)) fills.bindings)
  have inside : filled.insideInterfaces = generic.insideInterfaces := by
    simp only [insideInterfaces, internalInterface?, fills.interfaces, fills.internalInterfaces]
  obtain ⟨coveredInside, -⟩ := List.append_eq_nil_iff.mp covered
  obtain ⟨-, coveredOutside⟩ := isBound_of_covered covered
  refine List.append_eq_nil_iff.mpr ⟨?_, List.flatMap_eq_nil_iff.mpr fun component member => ?_⟩
  · rwa [unboundInside, bound, inside, ← unboundInside]
  · have named : component.name ∈ generic.components.map (·.name) :=
      fills.names ▸ List.mem_map_of_mem member
    obtain ⟨original, among, sameName⟩ := List.mem_map.mp named
    have takes := fills.takes component.name
    unfold unboundOf
    cases designated : filled.componentDefinition? component.name with
    | none => rfl
    | some second =>
        refine List.map_eq_nil_iff.mpr (List.filter_eq_nil_iff.mpr fun interface declared => ?_)
        cases designatedBefore : generic.componentDefinition? component.name with
        | none =>
            rw [designated, designatedBefore] at takes
            cases takes
        | some first =>
            have boundBefore := coveredOutside original among first (sameName ▸ designatedBefore)
            rw [sameName] at boundBefore
            rw [bound]
            rw [designated, designatedBefore] at takes
            suffices mustBeBound interface = true → generic.isBound component.name interface = true by
              simpa using this
            intro must
            cases takes with
            | same interfaces => exact boundBefore interface (interfaces ▸ declared) must
            | conforming span conforms sized completes =>
                obtain ⟨required, isRequired, mustAlso, covers⟩ :=
                  completes.exists_required conforms sized declared must
                exact covers (boundBefore required isRequired mustAlso)

end Fills

end Definition

/-! ## The stages of bindings -/

/-- Visits that leave the state as it is change each item on its own. -/
theorem Drafting.eachFrom_eq {State Draft α : Type} {visit : Nat → Drafting State Draft α}
    {state : State} {items : List Draft} {Result : Draft → Draft → Prop}
    (visits : ∀ item ∈ items, ∃ value changed, Result changed item ∧
      ∀ index, visit index (state, item) = (.ok value, (state, changed))) (index : Nat) :
    ∃ values changed, Drafting.eachFrom visit index items state = (.ok values, (state, changed)) ∧
      List.Forall₂ Result changed items := by
  induction items generalizing index with
  | nil => exact ⟨[], [], rfl, .nil⟩
  | cons item rest induction =>
      obtain ⟨value, changed, holds, visited⟩ := visits item List.mem_cons_self
      obtain ⟨values, others, visitedRest, holdsRest⟩ :=
        induction (fun other member => visits other (List.mem_cons_of_mem _ member)) (index + 1)
      refine ⟨value :: values, changed :: others, ?_, .cons holds holdsRest⟩
      simp only [Drafting.eachFrom, visited, visitedRest]

/-- Only the results of the checks differ. -/
def Binding.Resettled (settled binding : Binding) : Prop :=
  ∃ castRequired, settled = { binding with castRequired }

namespace Definition

variable {extends? : String → String → Bool} {context : Context} {definition : Definition}

/-- Bindings that pass the check are settled without a report. -/
theorem checkBindings_eq
    (accepted : ∀ binding ∈ definition.bindings,
      ∃ castRequired, binding.check definition context extends? = .ok castRequired) :
    ∃ bindings, List.Forall₂ Binding.Resettled bindings definition.bindings ∧
      checkBindings extends? (context, definition) =
        (.ok (), (context, { definition with bindings })) := by
  have drafted : (Drafting.draft : Revising Definition Definition) (context, definition) =
      (.ok definition, (context, definition)) := rfl
  have known : ((Loading.context : Loading Context) : Revising Definition Context)
      (context, definition) = (.ok context, (context, definition)) := rfl
  have visits : ∀ binding ∈ definition.bindings, ∃ value changed,
      Binding.Resettled changed binding ∧
        ∀ _ : Nat, (do
          let binding ← Drafting.draft
          settleBinding (binding.check definition context extends?) : Revising Binding Unit)
          (context, binding) = (.ok value, (context, changed)) := by
    intro binding member
    obtain ⟨castRequired, accepts⟩ := accepted binding member
    refine ⟨(), { binding with castRequired }, ⟨castRequired, rfl⟩, fun _ => ?_⟩
    have read : (Drafting.draft : Revising Binding Binding) (context, binding) =
        (.ok binding, (context, binding)) := rfl
    have settles : settleBinding (binding.check definition context extends?) (context, binding) =
        (.ok (), (context, { binding with castRequired })) := by
      rw [accepts]
      rfl
    exact (Step.bind_of_ok read).trans settles
  obtain ⟨values, bindings, visited, settled⟩ := Drafting.eachFrom_eq visits 0
  refine ⟨bindings, settled, (Step.bind_of_ok drafted).trans ((Step.bind_of_ok known).trans ?_)⟩
  exact Step.bind_of_ok (Drafting.onPart_of_ok visited)

end Definition

namespace Stage

variable {frontEnd : FrontEnd} {id : DefinitionId} {before context : Context} {generic : Definition}

theorem clients_resettled {settled bindings : List Binding}
    (resettled : List.Forall₂ Binding.Resettled settled bindings) :
    settled.map (·.client) = bindings.map (·.client) := by
  induction resettled with
  | nil => rfl
  | cons first _ induction =>
      obtain ⟨castRequired, rfl⟩ := first
      rw [List.map_cons, List.map_cons, induction]

/-- Where definitions fill the placeholders that can take the places of the types there, no binding
is refused and nothing is left unbound. -/
theorem run_of_fills (load : String → Loading DefinitionId) (name : String)
    (transitive : IsTransitive frontEnd.signatureExtends)
    (wired : generic.Wired frontEnd.signatureExtends before)
    (fills : generic.Fills frontEnd.signatureExtends before context (context.definition id)) :
    ∃ bindings, List.Forall₂ Binding.Resettled bindings (context.definition id).bindings ∧
      [.expandBindings, .checkBindings, .coverage].forM (run frontEnd load name id) context =
        (.ok (), context.replace id { context.definition id with bindings }) := by
  have bindings := fills.bindings
  have distinct : ((context.definition id).bindings.map (·.id)).Nodup := bindings ▸ wired.single
  have whole : ∀ binding ∈ (context.definition id).bindings,
      (context.definition id).expansion? context binding = none := by
    rw [bindings]
    exact fun binding member => fills.expansion?_eq_none transitive member
      (wired.accepted binding member) (wired.expanded binding member)
  have accepted : ∀ binding ∈ (context.definition id).bindings, ∃ castRequired,
      binding.check (context.definition id) context frontEnd.signatureExtends = .ok castRequired := by
    rw [bindings]
    exact fun binding member =>
      fills.exists_check transitive member (wired.accepted binding member)
  have normalized : run frontEnd load name id .expandBindings context = (.ok (), context) :=
    onBindings_of_stays (normalizeBindings_of_expanded whole distinct)
  obtain ⟨settled, resettled, checked⟩ := Definition.checkBindings_eq accepted
  have settles : (context.definition id).bindings = [] → settled = [] := by
    intro absent
    rw [absent] at resettled
    cases resettled
    rfl
  have ranCheck : run frontEnd load name id .checkBindings context =
      (.ok (), context.replace id { context.definition id with bindings := settled }) := by
    refine onBindings_of_ok checked fun absent => ⟨rfl, ?_⟩
    rw [settles absent, ← absent]
  refine ⟨settled, resettled, ?_⟩
  rw [List.forM_eq_forM, List.forM_cons]
  refine (Step.bind_of_ok normalized).trans ?_
  rw [List.forM_cons]
  refine (Step.bind_of_ok ranCheck).trans ?_
  rw [List.forM_cons]
  refine (Step.bind_of_ok (requireBound_of_covered name fun composite concrete => ?_)).trans rfl
  obtain ⟨same, interfaces⟩ := definition_withBindings context id settles
  rw [same] at composite concrete ⊢
  have shares : Definition.SharesEnds { context.definition id with bindings := settled }
      (context.definition id) := ⟨rfl, rfl, rfl, rfl⟩
  rw [(shares.mirrors interfaces).unbound (clients_resettled resettled)]
  refine fills.unbound_eq_nil (wired.covered ?_ (fills.isAbstract.symm.trans concrete))
  rw [Definition.isComposite, ← fills.kind]
  exact composite

end Stage

end Adl
