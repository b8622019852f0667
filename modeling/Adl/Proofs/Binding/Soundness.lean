import Adl.Proofs.Binding.Wiring

namespace Adl

open Step Context

/-! What a compilation that succeeds guarantees of the bindings of each definition, where the
ends designate interfaces. -/

/-! ## Compatible ends -/

namespace Compatibility

variable {client server : BoundEnd} {extends? : String → String → Bool} {span : Span}
  {castRequired : Bool}

theorem ok_of_check (accepted : check client server extends? span = .ok castRequired) :
    problems client server extends? = [] ∧ castRequired = needsCast client server := by
  unfold check at accepted
  split at accepted
  · rename_i compatible
    exact ⟨compatible, (Except.ok.inj accepted).symm⟩
  · exact nomatch accepted

/-- Nothing is wrong in any respect. -/
theorem no_problems (compatible : problems client server extends? = []) :
    roleProblems client server = [] ∧ indexProblems client server = [] ∧
      contingencyProblems client server = [] ∧ cardinalityProblems client server = [] ∧
      signatureProblems client server extends? = [] := by
  unfold problems at compatible
  simpa only [List.append_eq_nil_iff, and_assoc] using compatible

theorem roles_of_no_problems (silent : roleProblems client server = []) :
    client.interface.isClient = true ∧ server.interface.isServer = true := by
  unfold roleProblems problem at silent
  constructor
  · by_contra other
    simp [other] at silent
  · by_contra other
    simp [other] at silent

theorem contingency_of_no_problems (silent : contingencyProblems client server = []) :
    ¬(client.interface.isMandatory = true ∧ server.interface.isOptional = true) := by
  rintro ⟨mandatory, optional⟩
  simp [contingencyProblems, problem, mandatory, optional] at silent

theorem indices_of_no_problems (silent : indexProblems client server = []) :
    client.indexProblem? = none ∧ server.indexProblem? = none := by
  simpa [indexProblems] using silent

theorem single_of_no_problems (silent : cardinalityProblems client server = []) :
    client.isSingle = server.isSingle := by
  by_contra different
  simp [cardinalityProblems, problem, different] at silent

/-- A whole mandatory collection finds enough elements on the other side. -/
theorem enough_of_no_problems (silent : cardinalityProblems client server = [])
    (clientWhole : client.isSingle = false) (serverWhole : server.isSingle = false)
    (mandatory : client.interface.isMandatory = true) {emitted received : Nat}
    (emits : client.interface.elementCount? = some emitted)
    (receives : server.interface.elementCount? = some received) : emitted ≤ received := by
  by_contra few
  have exceeds : received < emitted := Nat.not_le.mp few
  simp [cardinalityProblems, problem, clientWhole, serverWhole, mandatory, emits, receives,
    exceeds] at silent

/-- Equal signatures need no cast, and others the server to extend the client. -/
theorem signatures_of_no_problems (silent : signatureProblems client server extends? = []) :
    client.interface.signature = server.interface.signature ∧ needsCast client server = false ∨
      client.interface.signature ≠ server.interface.signature ∧
        extends? server.interface.signature client.interface.signature = true ∧
          needsCast client server = true := by
  by_cases same : client.interface.signature = server.interface.signature
  · exact .inl ⟨same, by simp [needsCast, same]⟩
  · have cast : needsCast client server = true := by simp [needsCast, same]
    refine .inr ⟨same, ?_, cast⟩
    by_contra unrelated
    simp [signatureProblems, problem, cast, unrelated] at silent

end Compatibility

/-! ## Sound bindings -/

/-- An end has an index exactly where its interface is a collection, and one within its size. -/
def Endpoint.Fits (endpoint : Endpoint) (interface : Interface) : Prop :=
  (endpoint.index.isSome = true ↔ interface.isCollection = true) ∧
    ∀ index, endpoint.index = some index →
      ∃ size, interface.cardinality = .collection (some size) ∧ index < size

/-- What the ends of a binding have to do with each other. -/
structure Binding.IsSound (extends? : String → String → Bool) (binding : Binding)
    (client server : Interface) : Prop where
  isClient : client.isClient = true
  isServer : server.isServer = true
  contingency : ¬(client.isMandatory = true ∧ server.isOptional = true)
  signatures : client.signature = server.signature ∧ binding.castRequired = false ∨
    client.signature ≠ server.signature ∧ extends? server.signature client.signature = true ∧
      binding.castRequired = true
  indices : client.IsSized → server.IsSized → binding.client.Fits client ∧ binding.server.Fits server

theorem Interface.IsSized.exists_elementCount {interface : Interface} (sized : interface.IsSized) :
    ∃ count, interface.elementCount? = some count := by
  unfold IsSized at sized
  unfold elementCount?
  cases cardinality : interface.cardinality with
  | singleton => exact ⟨1, rfl⟩
  | collection size =>
      cases size with
      | none => exact absurd cardinality sized
      | some size => exact ⟨size.toNat, rfl⟩

/-- A binding that stands for no others is not one between whole collections, but for a client that
is too large. -/
theorem Definition.exceeds_of_expansion?_none {definition : Definition} {context : Context}
    {binding : Binding} {client server : Interface}
    (whole : definition.expansion? context binding = none)
    (clientFound : definition.endpointInterface context binding.client = .found client)
    (serverFound : definition.endpointInterface context binding.server = .found server)
    (clientIndex : binding.client.index = none) (serverIndex : binding.server.index = none)
    (clientCollection : client.isCollection = true) (serverCollection : server.isCollection = true)
    {emitted received : Nat} (emits : client.elementCount? = some emitted)
    (receives : server.elementCount? = some received) :
    client.isMandatory = true ∧ received < emitted := by
  unfold expansion? at whole
  rw [clientIndex, serverIndex, clientFound, serverFound] at whole
  simpa [clientCollection, serverCollection, emits, receives] using whole

/-- An end that designates one element of a sized interface fits it. -/
theorem BoundEnd.fits_of_isSingle {label : String} {interface : Interface} {endpoint : Endpoint}
    (single : isSingle ⟨label, interface, endpoint.index⟩ = true)
    (problem : indexProblem? ⟨label, interface, endpoint.index⟩ = none)
    (sized : interface.IsSized) : endpoint.Fits interface := by
  unfold isSingle at single
  unfold indexProblem? at problem
  unfold Endpoint.Fits Interface.isCollection
  cases isIndex : endpoint.index with
  | none =>
      rw [isIndex] at single
      have singleton : interface.isSingleton = true := by simpa using single
      simp [singleton]
  | some index =>
      rw [isIndex] at problem
      cases cardinality : interface.cardinality with
      | singleton => simp [cardinality] at problem
      | collection size =>
          cases size with
          | none => exact absurd cardinality sized
          | some size =>
              refine ⟨by simp [Interface.isSingleton, cardinality], fun position same => ?_⟩
              cases same
              refine ⟨size, rfl, ?_⟩
              by_contra beyond
              simp [cardinality, beyond] at problem

namespace Definition

variable {extends? : String → String → Bool} {context : Context} {definition : Definition}
  {binding : Binding} {client server : Interface}

/-- A wired binding leads from one element to one, unless the whole of a collection of unknown size
is at the other end. -/
theorem Wired.isSingle (wired : definition.Wired extends? context)
    (member : binding ∈ definition.bindings)
    (clientFound : definition.endpointInterface context binding.client = .found client)
    (serverFound : definition.endpointInterface context binding.server = .found server)
    (clientSized : client.IsSized) (serverSized : binding.server.index = none → server.IsSized) :
    BoundEnd.isSingle ⟨binding.client.text, client, binding.client.index⟩ = true ∧
      BoundEnd.isSingle ⟨binding.server.text, server, binding.server.index⟩ = true := by
  obtain ⟨compatible, -⟩ := Compatibility.ok_of_check
    ((wired.accepted binding member).compatible client server clientFound serverFound)
  obtain ⟨-, -, -, cardinality, -⟩ := Compatibility.no_problems compatible
  have single := Compatibility.single_of_no_problems cardinality
  rw [← single, and_self]
  by_contra multiple
  have clientWhole := Bool.eq_false_iff.mpr multiple
  have serverWhole := single.symm.trans clientWhole
  obtain ⟨clientCollection, clientAll⟩ := Bool.or_eq_false_iff.mp clientWhole
  obtain ⟨serverCollection, serverAll⟩ := Bool.or_eq_false_iff.mp serverWhole
  have clientIndex := Option.isNone_iff_eq_none.mp (Option.isSome_eq_false_iff.mp clientAll)
  have serverIndex := Option.isNone_iff_eq_none.mp (Option.isSome_eq_false_iff.mp serverAll)
  obtain ⟨emitted, emits⟩ := clientSized.exists_elementCount
  obtain ⟨received, receives⟩ := (serverSized serverIndex).exists_elementCount
  obtain ⟨mandatory, exceeds⟩ := exceeds_of_expansion?_none (wired.expanded binding member)
    clientFound serverFound clientIndex serverIndex (congrArg not clientCollection)
    (congrArg not serverCollection) emits receives
  exact absurd (Compatibility.enough_of_no_problems cardinality clientWhole serverWhole mandatory
    emits receives) (Nat.not_le.mpr exceeds)

/-- The client end of a wired binding fits its interface. -/
theorem Wired.fits (wired : definition.Wired extends? context)
    (member : binding ∈ definition.bindings)
    (clientFound : definition.endpointInterface context binding.client = .found client)
    (serverFound : definition.endpointInterface context binding.server = .found server)
    (clientSized : client.IsSized) (serverSized : binding.server.index = none → server.IsSized) :
    binding.client.Fits client := by
  obtain ⟨compatible, -⟩ := Compatibility.ok_of_check
    ((wired.accepted binding member).compatible client server clientFound serverFound)
  obtain ⟨-, indices, -⟩ := Compatibility.no_problems compatible
  exact BoundEnd.fits_of_isSingle
    (wired.isSingle member clientFound serverFound clientSized serverSized).1
    (Compatibility.indices_of_no_problems indices).1 clientSized

/-- The ends of wired bindings are fit for each other. -/
theorem Wired.isSound (wired : definition.Wired extends? context)
    (member : binding ∈ definition.bindings)
    (clientFound : definition.endpointInterface context binding.client = .found client)
    (serverFound : definition.endpointInterface context binding.server = .found server) :
    binding.IsSound extends? client server := by
  obtain ⟨compatible, cast⟩ := Compatibility.ok_of_check
    ((wired.accepted binding member).compatible client server clientFound serverFound)
  obtain ⟨roles, indices, contingency, -, signatures⟩ := Compatibility.no_problems compatible
  obtain ⟨isClient, isServer⟩ := Compatibility.roles_of_no_problems roles
  refine ⟨isClient, isServer, Compatibility.contingency_of_no_problems contingency, ?_, ?_⟩
  · rw [cast]
    exact Compatibility.signatures_of_no_problems signatures
  · intro clientSized serverSized
    have single := wired.isSingle member clientFound serverFound clientSized fun _ => serverSized
    exact ⟨wired.fits member clientFound serverFound clientSized fun _ => serverSized,
      BoundEnd.fits_of_isSingle single.2 (Compatibility.indices_of_no_problems indices).2
        serverSized⟩

/-- An end that designates an interface designated the same one when it was checked. -/
theorem found_before {before after : Context} {endpoint : Endpoint} {interface : Interface}
    (offers : ∀ id, (after.definition id).Offers (before.definition id))
    (known : Binding.IsKnown definition before endpoint)
    (found : definition.endpointInterface after endpoint = .found interface) :
    ∃ other, definition.endpointInterface before endpoint = .found other ∧
      interface.withoutTyped = other.withoutTyped := by
  rcases endpointInterface_eq_found_iff.mp found with inside | ⟨outside, id, designated, later⟩
  · exact ⟨interface, endpointInterface_eq_found_iff.mpr (.inl inside), rfl⟩
  · rcases known with unresolved | ⟨other, foundBefore⟩
    · exact nomatch designated.symm.trans (endpointInterface_eq_unresolved unresolved).2
    · refine ⟨other, foundBefore, ?_⟩
      rcases endpointInterface_eq_found_iff.mp foundBefore with ⟨inside, -⟩ | ⟨-, same, also, earlier⟩
      · exact nomatch outside.symm.trans inside
      · cases designated.symm.trans also
        have kept := offers id endpoint.interface other.withoutTyped (congrArg _ earlier)
        exact Option.some.inj ((congrArg (Option.map Interface.withoutTyped) later).symm.trans kept)

end Definition

/-- Typed annotations do not matter. -/
theorem Binding.IsSound.of_forms {extends? : String → String → Bool} {binding : Binding}
    {client server clientBefore serverBefore : Interface}
    (sameClient : client.withoutTyped = clientBefore.withoutTyped)
    (sameServer : server.withoutTyped = serverBefore.withoutTyped)
    (sound : binding.IsSound extends? clientBefore serverBefore) :
    binding.IsSound extends? client server := by
  have transferred : binding.IsSound extends? clientBefore.withoutTyped serverBefore.withoutTyped :=
    ⟨sound.isClient, sound.isServer, sound.contingency, sound.signatures, sound.indices⟩
  rw [← sameClient, ← sameServer] at transferred
  exact ⟨transferred.isClient, transferred.isServer, transferred.contingency,
    transferred.signatures, transferred.indices⟩

/-! ## Sized ends -/

namespace Definition

variable {extends? : String → String → Bool} {context before : Context} {definition : Definition}
  {interface : Interface}

/-- Internal interfaces are sized, for the external ones beside them are. -/
theorem IsTwinned.sized (twinned : definition.IsTwinned)
    (sized : ∀ external ∈ definition.interfaces, external.IsSized) :
    ∀ internal ∈ definition.internalInterfaces, internal.IsSized := by
  intro internal member
  obtain ⟨external, among, same⟩ := List.mem_map.mp (twinned.twins (List.mem_map_of_mem member))
  have cardinality : external.dual.cardinality = internal.withoutTyped.cardinality :=
    congrArg Interface.cardinality same
  exact fun unknown => sized external among (cardinality.trans unknown)

theorem IsTwinned.sized_inside (twinned : definition.IsTwinned)
    (sized : ∀ external ∈ definition.interfaces, external.IsSized) {name : String}
    (found : definition.insideInterface? name = some interface) : interface.IsSized := by
  rcases Option.or_eq_some_iff.mp found with internal | ⟨-, external⟩
  · exact twinned.sized sized interface (List.mem_of_find?_eq_some internal)
  · obtain ⟨declared, isDeclared, rfl⟩ := Option.map_eq_some_iff.mp external
    exact sized declared (List.mem_of_find?_eq_some isDeclared)

end Definition

namespace FrontEnd

/-- Where a compilation succeeds, the ends of each binding that designate interfaces are fit for
each other. An interface of unknown size is found only at a sub-component of which the definition
was never loaded. -/
theorem bindings_sound (frontEnd : FrontEnd) (options : Options) (definitions : List Definition)
    (roots : List String) (predefined : frontEnd.registry = .predefined)
    (plain : ∀ definition, definition ∈ definitions ∨ frontEnd.Parses definition →
      definition.internalInterfaces = [] ∧ definition.IsOrdinary) {compiled : Compiled}
    (succeeds : (frontEnd.compile (.ofDefinitions options definitions) roots).outcome =
      .ok compiled) (id : DefinitionId) (loaded : compiled.context.Loaded id) :
    (∀ binding ∈ (compiled.context.definition id).bindings, ∀ client server,
      (compiled.context.definition id).endpointInterface compiled.context binding.client =
        .found client →
      (compiled.context.definition id).endpointInterface compiled.context binding.server =
        .found server →
      binding.IsSound frontEnd.signatureExtends client server) ∧
    ∀ endpoint interface,
      (compiled.context.definition id).endpointInterface compiled.context endpoint =
        .found interface →
      (endpoint.isThis = true ∨ ∃ part, compiled.context.Loaded part ∧
        (compiled.context.definition id).componentDefinition? endpoint.component = some part) →
      interface.IsSized := by
  obtain ⟨twinned, name, middle, before, closed, offers, wired⟩ :=
    wired_of_compile predefined plain succeeds loaded
  refine ⟨fun binding member client server clientFound serverFound => ?_,
    fun endpoint interface found known => ?_⟩
  · have accepts := wired.accepted binding member
    obtain ⟨clientBefore, clientFoundBefore, sameClient⟩ :=
      Definition.found_before offers accepts.client clientFound
    obtain ⟨serverBefore, serverFoundBefore, sameServer⟩ :=
      Definition.found_before offers accepts.server serverFound
    exact (wired.isSound member clientFoundBefore serverFoundBefore).of_forms sameClient sameServer
  · rcases Definition.endpointInterface_eq_found_iff.mp found with
      ⟨-, inside⟩ | ⟨outside, part, designated, declared⟩
    · exact twinned.sized_inside wired.sized inside
    · rcases known with inside | ⟨other, loadedPart, also⟩
      · exact nomatch outside.symm.trans inside
      · cases designated.symm.trans also
        obtain ⟨-, _, _, _, -, -, wiredPart⟩ :=
          wired_of_compile predefined plain succeeds loadedPart
        exact wiredPart.sized interface (List.mem_of_find?_eq_some declared)

/-- Definitions without internal interfaces and typed annotations are plain. -/
theorem plain_of_untyped {definitions : List Definition}
    (untyped : ∀ definition ∈ definitions,
      definition.internalInterfaces = [] ∧ definition.IsUntyped) :
    ∀ definition, definition ∈ definitions ∨ registeredOnly.Parses definition →
      definition.internalInterfaces = [] ∧ definition.IsOrdinary := by
  rintro definition (member | ⟨_, _, _, _, isParser, -⟩)
  · exact (untyped definition member).imp_right Definition.IsUntyped.isOrdinary
  · exact nomatch isParser

/-- A primitive with a source and one interface. -/
def offering (name : String) (interface : Interface) : Definition :=
  { Definition.ofKind name .primitive with
    interfaces := [interface]
    sources := [.ofPath (name ++ ".c")] }

/-- A composite that binds a client collection of one part to a server collection of another. -/
def connecting (decoration : String → DefinitionId → Option Resolved) (emitted received : Option UInt32) :
    List Definition :=
  [ offering "a.C" { Interface.ofRole .client "x" "s" with cardinality := .collection emitted },
    offering "a.S" { Interface.ofRole .server "y" "s" with cardinality := .collection received },
    { Definition.ofKind "a.Top" .composite with
      components :=
        [⟨"c", some (.ofName "a.C"), none, .generated, .none, decoration "a.C" 0, false⟩,
          ⟨"d", some (.ofName "a.S"), none, .generated, .none, decoration "a.S" 1, false⟩]
      bindings := [⟨⟨"c", "x", none⟩, ⟨"d", "y", none⟩, .generated, .none, false⟩] } ]

/-- The collections are bound by element. -/
theorem connected_soundly :
    ∃ compiled, (registeredOnly.compile (.ofDefinitions .default
        (connecting (fun _ _ => none) (some 2) (some 3))) ["a.Top"]).outcome = .ok compiled ∧
      compiled.context.Loaded 2 ∧
      ((compiled.context.definition 2).bindings.map (·.client.index)) = [some 0, some 1] ∧
      ∀ binding ∈ (compiled.context.definition 2).bindings, ∀ client server,
        (compiled.context.definition 2).endpointInterface compiled.context binding.client =
          .found client →
        (compiled.context.definition 2).endpointInterface compiled.context binding.server =
          .found server →
        binding.IsSound registeredOnly.signatureExtends client server := by
  have succeeds : (registeredOnly.compile (.ofDefinitions .default
      (connecting (fun _ _ => none) (some 2) (some 3))) ["a.Top"]).outcome.toOption.any
        (fun compiled => compiled.context.cache.find? "a.Top" = some 2 ∧
          (compiled.context.definition 2).bindings.map (·.client.index) = [some 0, some 1]) =
      true := by
    decide +kernel
  cases outcome : (registeredOnly.compile (.ofDefinitions .default
      (connecting (fun _ _ => none) (some 2) (some 3))) ["a.Top"]).outcome with
  | error diagnostics =>
      rw [outcome] at succeeds
      exact nomatch succeeds
  | ok compiled =>
      rw [outcome] at succeeds
      obtain ⟨found, indices⟩ := of_decide_eq_true succeeds
      exact ⟨compiled, rfl, ⟨"a.Top", found⟩, indices,
        (bindings_sound registeredOnly .default _ ["a.Top"] rfl (plain_of_untyped (by decide))
          outcome 2 ⟨"a.Top", found⟩).1⟩

/-- The parts are taken to be resolved already and are not loaded, so that nobody asks for the sizes
of their collections: these are bound as a whole. -/
theorem unsized_bound_as_whole :
    ∃ compiled, (registeredOnly.compile (.ofDefinitions .default
        (connecting (fun name id => some ⟨name, some id⟩) none none)) ["a.Top"]).outcome =
        .ok compiled ∧
      compiled.context.Loaded 2 ∧ ∃ binding ∈ (compiled.context.definition 2).bindings,
        ∃ client server,
          (compiled.context.definition 2).endpointInterface compiled.context binding.client =
            .found client ∧
          (compiled.context.definition 2).endpointInterface compiled.context binding.server =
            .found server ∧
          ¬binding.client.Fits client := by
  have succeeds : (registeredOnly.compile (.ofDefinitions .default
      (connecting (fun name id => some ⟨name, some id⟩) none none)) ["a.Top"]).outcome.toOption.any
        (fun compiled => compiled.context.cache.find? "a.Top" = some 2 ∧
          ∃ binding ∈ (compiled.context.definition 2).bindings, binding.client.index = none ∧
            binding.client.isThis = false ∧ binding.server.isThis = false ∧
            ∃ client ∈ (compiled.context.definition 2).componentDefinition? binding.client.component,
            ∃ server ∈ (compiled.context.definition 2).componentDefinition? binding.server.component,
            (∃ required ∈ (compiled.context.definition client).interface? binding.client.interface,
              required.isCollection = true) ∧
            ((compiled.context.definition server).interface? binding.server.interface).isSome =
              true) = true := by
    decide +kernel
  cases outcome : (registeredOnly.compile (.ofDefinitions .default
      (connecting (fun name id => some ⟨name, some id⟩) none none)) ["a.Top"]).outcome with
  | error diagnostics =>
      rw [outcome] at succeeds
      exact nomatch succeeds
  | ok compiled =>
      rw [outcome] at succeeds
      obtain ⟨found, binding, member, whole, clientOutside, serverOutside, client, isClient, server,
        isServer, ⟨required, isRequired, isCollection⟩, declared⟩ := of_decide_eq_true succeeds
      obtain ⟨provided, isProvided⟩ := Option.isSome_iff_exists.mp declared
      refine ⟨compiled, rfl, ⟨"a.Top", found⟩, binding, member, required, provided,
        Definition.endpointInterface_eq_found_iff.mpr (.inr ⟨clientOutside, client, isClient, isRequired⟩),
        Definition.endpointInterface_eq_found_iff.mpr
          (.inr ⟨serverOutside, server, isServer, isProvided⟩), ?_⟩
      intro fits
      have indexed := fits.1.mpr isCollection
      rw [whole] at indexed
      exact nomatch indexed

end FrontEnd

end Adl
