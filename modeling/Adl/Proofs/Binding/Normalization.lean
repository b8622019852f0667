import Adl.Compilation
import Adl.Proofs.Binding.Resting
import Adl.Proofs.Loading.Collecting

namespace Adl

open Step Context FrontEnd

/-! What becomes of bindings when they are normalized. Each stands for itself or for one binding per
element, and of all of these the first one from each end is kept. -/

namespace Binding

/-! ## Elements -/

/-- The binding between the elements of an index. -/
def element (binding : Binding) (index : UInt32) : Binding :=
  { binding with
    client := binding.client.atIndex index
    server := binding.server.atIndex index }

/-- The binding is one between whole collections of these sizes, and not too large a demand. -/
structure JoinsCollections (definition : Definition) (context : Context) (binding : Binding)
    (emitted received : UInt32) : Prop where
  whole : binding.client.index = none ∧ binding.server.index = none
  client : ∃ client, definition.endpointInterface context binding.client = .found client ∧
    client.cardinality = .collection (some emitted) ∧
    (client.contingency = .mandatory → emitted ≤ received)
  server : ∃ server, definition.endpointInterface context binding.server = .found server ∧
    server.cardinality = .collection (some received)

/-- What a binding stands for: the bindings between as many elements as there are at both ends, in
their order, or itself only. -/
inductive StandsFor (definition : Definition) (context : Context) (binding : Binding) :
    List Binding → Prop
  | elements {emitted received : UInt32} {parts : List Binding}
      (joins : binding.JoinsCollections definition context emitted received)
      (count : parts.length = (min emitted received).toNat)
      (each : ∀ index < min emitted received, parts[index.toNat]? = some (binding.element index)) :
      StandsFor definition context binding parts
  | itself (single : ∀ emitted received,
      ¬binding.JoinsCollections definition context emitted received) :
      StandsFor definition context binding [binding]

variable {definition : Definition} {context : Context} {binding : Binding}
  {emitted received : UInt32}

theorem JoinsCollections.expansion?_eq
    (joins : binding.JoinsCollections definition context emitted received) :
    definition.expansion? context binding = some (min emitted received).toNat := by
  obtain ⟨⟨wholeClient, wholeServer⟩, ⟨client, foundClient, sizeClient, fits⟩,
    server, foundServer, sizeServer⟩ := joins
  have collections : (client.isCollection && server.isCollection) = true := by
    rw [Interface.isCollection, Interface.isCollection, Interface.isSingleton,
      Interface.isSingleton, sizeClient, sizeServer]
    rfl
  have notTooLarge : ¬(client.isMandatory && received.toNat < emitted.toNat) = true := by
    rw [Bool.and_eq_true, decide_eq_true_eq, ← UInt32.lt_iff_toNat_lt]
    exact fun tooLarge => UInt32.not_lt.mpr (fits (eq_of_beq tooLarge.1)) tooLarge.2
  unfold Definition.expansion?
  rw [foundClient, foundServer, wholeClient, wholeServer]
  dsimp only
  rw [if_pos collections, Interface.elementCount?, Interface.elementCount?, sizeClient, sizeServer]
  dsimp only [Option.map_some]
  rw [if_neg notTooLarge, UInt32.toNat_min]
  rfl

theorem size_of_elementCount? {interface : Interface} {count : Nat}
    (collection : interface.isCollection = true) (counted : interface.elementCount? = some count) :
    ∃ size, interface.cardinality = .collection (some size) ∧ size.toNat = count := by
  unfold Interface.isCollection Interface.isSingleton at collection
  unfold Interface.elementCount? at counted
  cases cardinality : interface.cardinality with
  | singleton =>
      rw [cardinality] at collection
      exact nomatch collection
  | collection size? =>
      rw [cardinality] at counted
      obtain ⟨size, rfl, isCount⟩ := Option.map_eq_some_iff.mp counted
      exact ⟨size, rfl, isCount⟩

theorem joinsCollections_of_expansion? {count : Nat}
    (expands : definition.expansion? context binding = some count) :
    ∃ emitted received, binding.JoinsCollections definition context emitted received := by
  unfold Definition.expansion? at expands
  obtain ⟨unindexed, expands⟩ := Option.ite_none_left_eq_some.mp expands
  split at expands
  · rename_i client server foundClient foundServer
    obtain ⟨collections, expands⟩ := Option.ite_none_right_eq_some.mp expands
    obtain ⟨isCollection, isCollectionToo⟩ := Bool.and_eq_true_iff.mp collections
    split at expands
    · rename_i countedClient countedServer
      obtain ⟨emitted, sizeClient, rfl⟩ := size_of_elementCount? isCollection countedClient
      obtain ⟨received, sizeServer, rfl⟩ := size_of_elementCount? isCollectionToo countedServer
      obtain ⟨notTooLarge, -⟩ := Option.ite_none_left_eq_some.mp expands
      refine ⟨emitted, received, by simpa using unindexed,
        ⟨client, foundClient, sizeClient, fun mandatory => ?_⟩, server, foundServer, sizeServer⟩
      rw [Interface.isMandatory, mandatory] at notTooLarge
      exact UInt32.not_lt.mp fun tooLarge =>
        notTooLarge (by simpa using UInt32.lt_iff_toNat_lt.mp tooLarge)
    · exact nomatch expands
  · exact nomatch expands

/-- The bindings that take the place of one are those that it stands for. -/
theorem standsFor_expandBinding (definition : Definition) (context : Context) (binding : Binding) :
    binding.StandsFor definition context (definition.expandBinding context binding) := by
  unfold Definition.expandBinding
  cases expands : definition.expansion? context binding with
  | none =>
      refine .itself fun emitted received joins => ?_
      exact nomatch expands.symm.trans joins.expansion?_eq
  | some count =>
      obtain ⟨emitted, received, joins⟩ := joinsCollections_of_expansion? expands
      obtain rfl : count = (min emitted received).toNat :=
        Option.some.inj (expands.symm.trans joins.expansion?_eq)
      refine .elements joins ?_ fun index within => ?_
      · simp
      · have isIndex : index.toNat < (min emitted received).toNat := UInt32.lt_iff_toNat_lt.mp within
        simp [isIndex, element]

/-! ## First bindings -/

variable {table : Table Span} {seen : List Binding}

/-- Where errors are collected, the first bindings are kept and the others reported. -/
theorem keepFirst_of_collecting (collects : context.log.policy = .collect)
    (finds : FindsFirsts table seen) (rest : List Binding) :
    ∃ kept reports, firsts (seen ++ rest) = firsts seen ++ kept ∧
      repeats (seen ++ rest) = repeats seen ++ reports ∧
      keepFirst table rest context = (.ok kept, context.collected reports) := by
  -- Over what is left, whatever was seen before: it moves one binding at a time to what was seen.
  induction rest generalizing seen table context with
  | nil => exact ⟨[], [], by simp, by simp, rfl⟩
  | cons binding rest induction =>
      rw [List.append_cons]
      unfold keepFirst
      rw [finds binding.id]
      cases found : seen.find? (·.id == binding.id) with
      | some first =>
          have same := List.find?_some found
          have known : seen.any (·.id == binding.id) = true :=
            List.any_eq_true.mpr ⟨first, List.mem_of_find?_eq_some found, same⟩
          let report := binding.duplicateReport first.span
          have reported : Loading.record report context = (.ok (), context.collected [report]) :=
            Loading.record_of_collecting collects rfl
          have stillCollects : (context.collected [report]).log.policy = .collect := collects
          obtain ⟨kept, reports, keeps, reporting, runs⟩ :=
            induction stillCollects (finds.of_known found)
          refine ⟨kept, report :: reports, ?_, ?_, (bind_of_ok reported).trans runs⟩
          · rw [keeps, firsts_concat, if_pos known, List.append_nil]
          · rw [reporting, repeats_concat, found]
            exact List.append_assoc ..
      | none =>
          have isNew : ¬seen.any (·.id == binding.id) = true := by
            simpa using found
          obtain ⟨kept, reports, keeps, reporting, runs⟩ := induction collects (finds.of_new found)
          refine ⟨binding :: kept, reports, ?_, ?_, (bind_of_ok runs).trans rfl⟩
          · rw [keeps, firsts_concat, if_neg isNew]
            exact List.append_assoc ..
          · rw [reporting, repeats_concat, found]
            exact congrArg (· ++ reports) (List.append_nil _)

end Binding

/-! ## Normalization -/

namespace Stage

variable {frontEnd : FrontEnd} {load : String → Loading DefinitionId} {name : String}
  {id : DefinitionId} {context reached : Context} {definition : Definition}

theorem normalizeBindings_of_collecting (collects : context.log.policy = .collect) :
    normalizeBindings (context, definition) =
      (.ok (), (context.collected (Binding.repeats (definition.expandedBindings context)),
        { definition with bindings := Binding.firsts (definition.expandedBindings context) })) := by
  have finds : Binding.FindsFirsts .empty [] := fun _ => rfl
  obtain ⟨kept, reports, keeps, reporting, runs⟩ :=
    Binding.keepFirst_of_collecting collects finds (definition.expandedBindings context)
  rw [List.nil_append] at keeps reporting
  rw [keeps, reporting]
  exact read_bind rfl (read_bind rfl (bind_of_ok (Drafting.lift_of_ok runs)))

/-- The bindings that are kept start from different ends and, once they are stored, stand for
themselves only. -/
theorem expandBindings_of_firsts {diagnostics : List Diagnostic}
    (stores : reached = (context.collected diagnostics).replace id { context.definition id with
      bindings := Binding.firsts ((context.definition id).expandedBindings context) }) :
    run frontEnd load name id .expandBindings reached = (.ok (), reached) := by
  have none : (context.definition id).bindings = [] →
      Binding.firsts ((context.definition id).expandedBindings context) = [] := by
    intro absent
    rw [Definition.expandedBindings, absent]
    rfl
  obtain ⟨same, interfaces⟩ :
      reached.definition id = { context.definition id with
        bindings := Binding.firsts ((context.definition id).expandedBindings context) } ∧
      reached.SharesInterfaces context :=
    stores ▸ definition_withBindings (context.collected diagnostics) id none
  have shares : (reached.definition id).SharesEnds (context.definition id) := by
    rw [same]
    exact ⟨rfl, rfl, rfl, rfl⟩
  refine onBindings_of_stays (normalizeBindings_of_expanded (fun binding member => ?_) ?_)
  · rw [same] at member
    rw [(shares.mirrors interfaces).expansion? rfl rfl]
    exact Definition.expansion?_of_mem_expandedBindings ((Binding.firsts_sublist _).mem member)
  · rw [same]
    exact Binding.nodup_firsts _

/-- Where errors are collected, the bindings of a definition become those that they stand for, less
those that start where another one did. Each of these is reported, and when the bindings are
normalized again nothing happens. -/
theorem normalizes_bindings (frontEnd : FrontEnd) (load : String → Loading DefinitionId)
    (name : String) (id : DefinitionId) (context : Context)
    (collects : context.log.policy = .collect) :
    ∃ parts, List.Forall₂ (Binding.StandsFor (context.definition id) context)
        (context.definition id).bindings parts ∧
      ∃ reached, reached = (context.collected (Binding.repeats parts.flatten)).replace id
          { context.definition id with bindings := Binding.firsts parts.flatten } ∧
        run frontEnd load name id .expandBindings context = (.ok (), reached) ∧
        run frontEnd load name id .expandBindings reached = (.ok (), reached) := by
  have standing : List.Forall₂ (Binding.StandsFor (context.definition id) context)
      (context.definition id).bindings
      ((context.definition id).bindings.map ((context.definition id).expandBinding context)) :=
    List.forall₂_map_right_iff.mpr (List.forall₂_same.mpr fun binding _ =>
      Binding.standsFor_expandBinding (context.definition id) context binding)
  refine ⟨_, standing, _, rfl, ?_, expandBindings_of_firsts rfl⟩
  refine onBindings_of_ok (normalizeBindings_of_collecting collects) fun absent => ?_
  rw [absent]
  exact ⟨rfl, congrArg (fun bindings => { context.definition id with bindings }) absent.symm⟩

/-- A composite that passes on what it is called for: a collection of two as a whole, and then the
first element once more. -/
def relaying : Definition :=
  { Definition.ofKind "a.C" .composite with
    interfaces :=
      [ { Interface.ofRole .server "in" "a.I" with cardinality := .collection (some 2) },
        { Interface.ofRole .client "out" "a.I" with cardinality := .collection (some 3) } ]
    bindings :=
      [ ⟨⟨"this", "in", none⟩, ⟨"this", "out", none⟩, .generated, .none, false⟩,
        ⟨⟨"this", "in", some 0⟩, ⟨"this", "out", some 2⟩, .generated, .none, false⟩ ] }

/-- Two bindings are left of the three that it holds in the end. -/
theorem relaying_normalized :
    let context := Context.ofDefinitions .default [relaying]
    (∃ parts, List.Forall₂ (Binding.StandsFor (context.definition 0) context)
        (context.definition 0).bindings parts ∧
      ∃ reached, reached = (context.collected (Binding.repeats parts.flatten)).replace 0
          { context.definition 0 with bindings := Binding.firsts parts.flatten } ∧
        run registeredOnly registeredOnly.load "a.C" 0 .expandBindings context =
          (.ok (), reached) ∧
        run registeredOnly registeredOnly.load "a.C" 0 .expandBindings reached =
          (.ok (), reached)) ∧
    ((run registeredOnly registeredOnly.load "a.C" 0 .expandBindings context).2.definition
      0).bindings.map (·.text) = ["this.in[0] to this.out[0]", "this.in[1] to this.out[1]"] :=
  ⟨normalizes_bindings registeredOnly registeredOnly.load "a.C" 0 _ rfl, by decide⟩

end Stage

end Adl
