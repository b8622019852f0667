import Adl.Proofs.Binding.Report
import Adl.Proofs.Signature

namespace Adl

/-! What a definition guarantees that conforms to a type, where it takes the place of the type:
interfaces that fit the same bindings. What it does not guarantee is asked for explicitly. -/

/-! ## Pairs of ends that fit -/

namespace Compatibility

variable {extends? : String → String → Bool} {client server : BoundEnd} {span : Span}
  {label other : String} {index : Option UInt32} {declared used provided : Interface}

/-- Nothing is wrong with a pair of ends. -/
structure Fitting (extends? : String → String → Bool) (client server : BoundEnd) : Prop where
  isClient : client.interface.isClient = true
  isServer : server.interface.isServer = true
  clientIndex : client.indexProblem? = none
  serverIndex : server.indexProblem? = none
  contingency : client.interface.isMandatory = true → server.interface.isMandatory = true
  single : client.isSingle = server.isSingle
  enough : client.isSingle = false → client.interface.isMandatory = true →
    ∀ emitted received, client.interface.elementCount? = some emitted →
      server.interface.elementCount? = some received → emitted ≤ received
  signature : client.interface.signature = server.interface.signature ∨
    extends? server.interface.signature client.interface.signature = true

theorem isOptional_eq (interface : Interface) : interface.isOptional = !interface.isMandatory := by
  unfold Interface.isOptional Interface.isMandatory
  cases interface.contingency <;> rfl

theorem problems_eq_nil_iff : problems client server extends? = [] ↔ Fitting extends? client server := by
  constructor
  · intro silent
    obtain ⟨roles, indices, contingency, cardinality, signatures⟩ := no_problems silent
    obtain ⟨isClient, isServer⟩ := roles_of_no_problems roles
    obtain ⟨clientIndex, serverIndex⟩ := indices_of_no_problems indices
    have single := single_of_no_problems cardinality
    refine ⟨isClient, isServer, clientIndex, serverIndex, fun mandatory => ?_, single, ?_, ?_⟩
    · have notOptional := fun optional => contingency_of_no_problems contingency ⟨mandatory, optional⟩
      simpa [isOptional_eq] using notOptional
    · exact fun whole mandatory _ _ => enough_of_no_problems cardinality whole (single ▸ whole) mandatory
    · exact (signatures_of_no_problems signatures).imp And.left fun other => other.2.1
  · intro fits
    have roles : roleProblems client server = [] := by
      simp [roleProblems, fits.isClient, fits.isServer]
    have indices : indexProblems client server = [] := by
      simp [indexProblems, fits.clientIndex, fits.serverIndex]
    have contingency : contingencyProblems client server = [] := by
      have allowed := fits.contingency
      unfold contingencyProblems
      rw [isOptional_eq]
      split
      · rename_i refused
        obtain ⟨mandatory, optional⟩ := Bool.and_eq_true_iff.mp refused
        simp [allowed mandatory] at optional
      · rfl
    have cardinality : cardinalityProblems client server = [] := by
      have enough := fits.enough
      unfold cardinalityProblems
      rw [fits.single, bne_self_eq_false, ← fits.single]
      split
      · contradiction
      · split
        · rename_i whole
          obtain ⟨multiple, mandatory⟩ := Bool.and_eq_true_iff.mp whole
          split
          · rename_i emitted received emits receives
            rw [if_neg (Nat.not_lt.mpr (enough (by simpa using multiple) mandatory _ _ emits receives))]
          · rfl
        · rfl
    have signatures : signatureProblems client server extends? = [] := by
      unfold signatureProblems needsCast
      rcases fits.signature with same | known
      · simp [same]
      · simp [known]
    simp only [problems, roles, indices, contingency, cardinality, signatures, List.append_nil]

/-- A pair that fits is accepted. -/
theorem Fitting.check (fits : Fitting extends? client server) :
    Compatibility.check client server extends? span = .ok (needsCast client server) := by
  rw [Compatibility.check, problems_eq_nil_iff.mpr fits]

theorem fitting_of_check {castRequired : Bool}
    (accepted : Compatibility.check client server extends? span = .ok castRequired) :
    Fitting extends? client server :=
  problems_eq_nil_iff.mp (ok_of_check accepted).1

end Compatibility

/-- An element that an interface has, as far as its size is known. -/
def Interface.HasElement (interface : Interface) (index : Option UInt32) : Prop :=
  ∀ position, index = some position →
    ∀ size, interface.cardinality = .collection (some size) → position < size

instance (interface : Interface) (index : Option UInt32) :
    Decidable (interface.HasElement index) :=
  decidable_of_iff ((match index, interface.cardinality with
    | some position, .collection (some size) => decide (position < size)
    | _, _ => true) = true) (by
      unfold Interface.HasElement
      split <;> simp_all)

namespace Compatibility

variable {extends? : String → String → Bool} {client server : BoundEnd}
  {label inner outer other : String} {index : Option UInt32} {declared used provided : Interface}

/-- Without an index, both interfaces of a pair that fits are singletons or both are collections. -/
theorem Fitting.isSingleton_eq
    (fits : Fitting extends? ⟨inner, used, none⟩ ⟨outer, provided, none⟩) :
    used.isSingleton = provided.isSingleton := by
  simpa [BoundEnd.isSingle] using fits.single

theorem indexProblem?_eq_none_iff : BoundEnd.indexProblem? ⟨label, declared, index⟩ = none ↔
    (index.isSome = true → declared.isSingleton = false) ∧ declared.HasElement index := by
  unfold BoundEnd.indexProblem? Interface.HasElement Interface.isSingleton
  cases index with
  | none => simp
  | some position =>
      cases declared.cardinality with
      | singleton => simp
      | collection size =>
          cases size with
          | none => simp
          | some size => by_cases within : position < size <;> simp [within]

/-- An index that suits one interface suits another that has the element. -/
theorem indexProblem?_replace (suits : BoundEnd.indexProblem? ⟨label, declared, index⟩ = none)
    (same : used.isSingleton = declared.isSingleton) (has : used.HasElement index) :
    BoundEnd.indexProblem? ⟨other, used, index⟩ = none :=
  indexProblem?_eq_none_iff.mpr
    ⟨fun isIndex => same.trans ((indexProblem?_eq_none_iff.mp suits).1 isIndex), has⟩

/-- A mandatory collection is no smaller on the other side. -/
theorem Fitting.hasElement
    (stands : Fitting extends? ⟨inner, declared.dual, none⟩ ⟨outer, provided, none⟩)
    (mandatory : declared.isMandatory = true) (sized : declared.IsSized)
    (has : declared.HasElement index) : provided.HasElement index := by
  intro position isIndex size collection
  have multiple : declared.isSingleton = false :=
    stands.isSingleton_eq.trans (by simp [Interface.isSingleton, collection])
  have whole : BoundEnd.isSingle ⟨inner, declared.dual, none⟩ = false := by
    have undual : declared.dual.isSingleton = declared.isSingleton := rfl
    simp [BoundEnd.isSingle, undual, multiple]
  cases cardinality : declared.cardinality with
  | singleton => simp [Interface.isSingleton, cardinality] at multiple
  | collection known =>
      cases known with
      | none => exact absurd cardinality sized
      | some bound =>
          have undual : declared.dual.cardinality = declared.cardinality := rfl
          have enough := stands.enough whole mandatory bound.toNat size.toNat
            (by simp [Interface.elementCount?, undual, cardinality])
            (by simp [Interface.elementCount?, collection])
          exact UInt32.lt_iff_toNat_lt.mpr
            (Nat.lt_of_lt_of_le (UInt32.lt_iff_toNat_lt.mp (has position isIndex bound cardinality))
              enough)

/-- A client that could be bound to the inner side of a declared one can be bound in its place. -/
theorem Fitting.replace_client (transitive : IsTransitive extends?)
    (fits : Fitting extends? ⟨label, declared, index⟩ server)
    (stands : Fitting extends? ⟨inner, used, none⟩ ⟨outer, declared.dual, none⟩)
    (sized : declared.IsSized) (has : used.HasElement index) :
    Fitting extends? ⟨other, used, index⟩ server := by
  have same : used.isSingleton = declared.isSingleton := stands.isSingleton_eq
  have single : BoundEnd.isSingle ⟨other, used, index⟩ = BoundEnd.isSingle ⟨label, declared, index⟩ :=
    congrArg (· || index.isSome) same
  refine ⟨stands.isClient, fits.isServer, indexProblem?_replace fits.clientIndex same has,
    fits.serverIndex, fun mandatory => fits.contingency (stands.contingency mandatory),
    single.trans fits.single, ?_, ?_⟩
  · intro whole mandatory emitted received emits receives
    obtain ⟨count, counts⟩ := sized.exists_elementCount
    have wholeUsed : BoundEnd.isSingle ⟨inner, used, none⟩ = false := by
      have unshared := (Bool.or_eq_false_iff.mp whole).1
      simpa [BoundEnd.isSingle] using unshared
    exact (stands.enough wholeUsed mandatory emitted count emits counts).trans
      (fits.enough (single ▸ whole) (stands.contingency mandatory) count received counts receives)
  · rcases fits.signature, stands.signature with ⟨first | first, second | second⟩
    · exact .inl (second.trans first)
    · exact .inr (by rw [← first]; exact second)
    · exact .inr (by rw [show used.signature = declared.signature from second]; exact first)
    · exact .inr (transitive first second)

/-- A server to which the inner side of a declared one could be bound can be bound in its place. -/
theorem Fitting.replace_server (transitive : IsTransitive extends?)
    (fits : Fitting extends? client ⟨label, declared, index⟩)
    (stands : Fitting extends? ⟨inner, declared.dual, none⟩ ⟨outer, provided, none⟩)
    (sized : declared.IsSized) (has : provided.HasElement index) :
    Fitting extends? client ⟨other, provided, index⟩ := by
  have same : provided.isSingleton = declared.isSingleton := stands.isSingleton_eq.symm
  have single : BoundEnd.isSingle ⟨other, provided, index⟩ =
      BoundEnd.isSingle ⟨label, declared, index⟩ :=
    congrArg (· || index.isSome) same
  refine ⟨fits.isClient, stands.isServer, fits.clientIndex,
    indexProblem?_replace fits.serverIndex same has,
    fun mandatory => stands.contingency (fits.contingency mandatory),
    fits.single.trans single.symm, ?_, ?_⟩
  · intro whole mandatory emitted received emits receives
    obtain ⟨count, counts⟩ := sized.exists_elementCount
    have wholeDeclared : BoundEnd.isSingle ⟨inner, declared.dual, none⟩ = false := by
      have unshared := (Bool.or_eq_false_iff.mp (fits.single.symm.trans whole)).1
      have undual : declared.dual.isSingleton = declared.isSingleton := rfl
      simpa [BoundEnd.isSingle, undual] using unshared
    exact (fits.enough whole mandatory emitted count emits counts).trans
      (stands.enough wholeDeclared (fits.contingency mandatory) count received counts receives)
  · rcases fits.signature, stands.signature with ⟨first | first, second | second⟩
    · exact .inl (first.trans second)
    · exact .inr (by rw [first]; exact second)
    · exact .inr (by rw [← second]; exact first)
    · exact .inr (transitive second first)

end Compatibility

/-! ## Interfaces in the place of others -/

/-- Where one interface fits, at a given index, the other fits too. -/
structure Interface.Replaces (extends? : String → String → Bool) (index : Option UInt32)
    (offered declared : Interface) : Prop where
  isSingleton : offered.isSingleton = declared.isSingleton
  isSized : offered.IsSized → declared.IsSized
  asClient : ∀ {label : String} {server : BoundEnd},
    Compatibility.Fitting extends? ⟨label, declared, index⟩ server →
      Compatibility.Fitting extends? ⟨label, offered, index⟩ server
  asServer : ∀ {label : String} {client : BoundEnd},
    Compatibility.Fitting extends? client ⟨label, declared, index⟩ →
      Compatibility.Fitting extends? client ⟨label, offered, index⟩

theorem Interface.Replaces.refl (extends? : String → String → Bool) (index : Option UInt32)
    (interface : Interface) : interface.Replaces extends? index interface :=
  ⟨rfl, id, id, id⟩

namespace Conformance

variable {extends? : String → String → Bool} {value type : Definition} {span : Span}

theorem fitting_of_bindingProblems {client server : BoundEnd}
    (silent : bindingProblems extends? value type span client server = []) :
    Compatibility.Fitting extends? client server := by
  unfold bindingProblems at silent
  split at silent
  · rename_i castRequired accepted
    exact Compatibility.fitting_of_check accepted
  · rename_i found refused
    unfold Compatibility.check at refused
    split at refused
    · exact nomatch refused
    · rename_i problems some
      cases refused
      exact absurd (List.map_eq_nil_iff.mp (List.map_eq_nil_iff.mp silent)) some

/-- What a type serves, a definition that conforms to it serves as well. -/
theorem exists_provided (conforms : problems extends? value type span = []) {required : Interface}
    (declared : required ∈ type.interfaces) (server : required.isServer = true) :
    ∃ provided, value.interface? required.name = some provided ∧
      Compatibility.Fitting extends? ⟨"this." ++ required.name, required.dual, none⟩
        ⟨provided.name, provided, none⟩ := by
  have silent := List.flatMap_eq_nil_iff.mp (List.append_eq_nil_iff.mp conforms).1 required
    (List.mem_filter.mpr ⟨declared, server⟩)
  unfold serverProblems at silent
  split at silent
  · exact nomatch silent
  · rename_i provided found
    exact ⟨provided, found, fitting_of_bindingProblems silent⟩

/-- What a definition requires that conforms to a type, the type declares or nobody needs. -/
theorem declared_or_optional (conforms : problems extends? value type span = []) {used : Interface}
    (required : used ∈ value.interfaces) (client : used.isClient = true) :
    (∃ declared, type.interface? used.name = some declared ∧
      Compatibility.Fitting extends? ⟨used.name, used, none⟩
        ⟨"this." ++ declared.name, declared.dual, none⟩) ∨
    type.interface? used.name = none ∧ used.isMandatory = false := by
  have silent := List.flatMap_eq_nil_iff.mp (List.append_eq_nil_iff.mp conforms).2 used
    (List.mem_filter.mpr ⟨required, client⟩)
  unfold clientProblems at silent
  split at silent
  · rename_i undeclared
    refine .inr ⟨undeclared, ?_⟩
    by_contra mandatory
    simp [mandatory] at silent
  · rename_i declared found
    exact .inl ⟨declared, found, fitting_of_bindingProblems silent⟩

end Conformance

/-! ## Definitions in the place of types -/

namespace Definition

variable {extends? : String → String → Bool} {value type : Definition} {span : Span}
  {bindings : List Binding} {component : String}

/-- What conformance leaves open of a definition that takes the place of a type in a composite:
that it has the clients from which bindings start, that the elements which are bound exist where
interfaces may be smaller than declared, and that it leaves open no client which a controller
implements for the type. -/
structure Completes (value type : Definition) (bindings : List Binding) (component : String) :
    Prop where
  ends : ∀ binding ∈ bindings, ∀ endpoint ∈ [binding.client, binding.server],
    endpoint.component = component → ∀ declared ∈ type.interface? endpoint.interface,
      declared.isServer = true ∧ declared.isMandatory = true ∨
        ∃ offered ∈ value.interface? endpoint.interface,
          offered.role = declared.role ∧ offered.HasElement endpoint.index
  implemented : ∀ used ∈ value.interfaces, mustBeBound used = true →
    ∀ declared ∈ type.interface? used.name, declared.isController = false

instance : Decidable (value.Completes type bindings component) :=
  decidable_of_iff (
    (∀ binding ∈ bindings, ∀ endpoint ∈ [binding.client, binding.server],
      endpoint.component = component → ∀ declared ∈ type.interface? endpoint.interface,
        declared.isServer = true ∧ declared.isMandatory = true ∨
          ∃ offered ∈ value.interface? endpoint.interface,
            offered.role = declared.role ∧ offered.HasElement endpoint.index) ∧
    ∀ used ∈ value.interfaces, mustBeBound used = true →
      ∀ declared ∈ type.interface? used.name, declared.isController = false)
    ⟨fun both => ⟨both.1, both.2⟩, fun completes => ⟨completes.ends, completes.implemented⟩⟩

theorem name_of_interface? {definition : Definition} {name : String} {interface : Interface}
    (found : definition.interface? name = some interface) :
    interface ∈ definition.interfaces ∧ interface.name = name :=
  ⟨List.mem_of_find?_eq_some found, by simpa using List.find?_some found⟩

/-- At the ends of bindings, a definition that conforms to a type replaces its interfaces. -/
theorem Completes.replaces (transitive : IsTransitive extends?)
    (completes : value.Completes type bindings component)
    (conforms : Conformance.problems extends? value type span = [])
    (sized : ∀ interface ∈ type.interfaces, interface.IsSized) {binding : Binding}
    (member : binding ∈ bindings) {endpoint : Endpoint}
    (isEnd : endpoint ∈ [binding.client, binding.server]) (there : endpoint.component = component)
    {declared : Interface} (found : type.interface? endpoint.interface = some declared) :
    ∃ offered, value.interface? endpoint.interface = some offered ∧
      offered.Replaces extends? endpoint.index declared := by
  obtain ⟨isDeclared, named⟩ := name_of_interface? found
  have isSized := sized declared isDeclared
  have open' := completes.ends binding member endpoint isEnd there declared found
  cases role : declared.role with
  | client =>
      have notServer : declared.isServer = false := by simp [Interface.isServer, role]
      obtain ⟨isServer, -⟩ | ⟨offered, isOffered, sameRole, has⟩ := open'
      · cases notServer.symm.trans isServer
      · obtain ⟨among, alsoNamed⟩ := name_of_interface? isOffered
        have isClient : offered.isClient = true := by
          simp [Interface.isClient, sameRole, role]
        rcases Conformance.declared_or_optional conforms among isClient with
          ⟨other, isOther, stands⟩ | ⟨undeclared, -⟩
        · rw [alsoNamed] at isOther
          cases found.symm.trans isOther
          refine ⟨offered, isOffered, stands.isSingleton_eq, fun _ => isSized,
            fun fits => fits.replace_client transitive stands isSized has, fun fits => ?_⟩
          cases notServer.symm.trans fits.isServer
        · rw [alsoNamed] at undeclared
          cases found.symm.trans undeclared
  | server =>
      have isServer : declared.isServer = true := by simp [Interface.isServer, role]
      obtain ⟨provided, isProvided, stands⟩ :=
        Conformance.exists_provided conforms isDeclared isServer
      rw [named] at isProvided
      refine ⟨provided, isProvided, stands.isSingleton_eq.symm, fun _ => isSized, fun fits => ?_,
        fun fits => fits.replace_server transitive stands isSized ?_⟩
      · have isClient : declared.isClient = true := fits.isClient
        simp [Interface.isClient, role] at isClient
      · obtain ⟨-, mandatory⟩ | ⟨offered, isOffered, -, has⟩ := open'
        · exact stands.hasElement mandatory isSized (Compatibility.indexProblem?_eq_none_iff.mp
            fits.serverIndex).2
        · cases isProvided.symm.trans isOffered
          exact has

/-- What covers a client covers one that could be bound to its inner side. -/
theorem isBound_of_fitting {definition : Definition} {inner outer : String}
    {declared used : Interface}
    (stands : Compatibility.Fitting extends? ⟨inner, used, none⟩ ⟨outer, declared.dual, none⟩)
    (named : declared.name = used.name) (mandatory : used.isMandatory = true)
    (sized : declared.IsSized) (bound : definition.isBound component declared = true) :
    definition.isBound component used = true := by
  obtain ⟨covered, index, starts⟩ := isBound_iff.mp bound
  have same : used.isSingleton = declared.isSingleton := stands.isSingleton_eq
  rw [named] at starts
  refine isBound_iff.mpr ⟨?_, index, starts⟩
  unfold IsCovered at covered ⊢
  rw [named] at covered
  cases usedCardinality : used.cardinality with
  | singleton => exact ⟨index, starts⟩
  | collection known =>
      cases known with
      | none => exact ⟨index, starts⟩
      | some size =>
          have multiple : declared.isSingleton = false :=
            same.symm.trans (by simp [Interface.isSingleton, usedCardinality])
          cases cardinality : declared.cardinality with
          | singleton => simp [Interface.isSingleton, cardinality] at multiple
          | collection declaredSize =>
              cases declaredSize with
              | none => exact absurd cardinality sized
              | some bound =>
                  have whole : BoundEnd.isSingle ⟨inner, used, none⟩ = false := by
                    simp [BoundEnd.isSingle, same, multiple]
                  have undual : declared.dual.cardinality = declared.cardinality := rfl
                  have enough : size ≤ bound := stands.enough whole mandatory size.toNat bound.toNat
                    (by simp [Interface.elementCount?, usedCardinality])
                    (by simp [Interface.elementCount?, undual, cardinality])
                  rw [cardinality] at covered
                  exact covered.imp_right fun each position within =>
                    each position (UInt32.lt_of_lt_of_le within enough)

/-- What a definition requires that takes the place of a type, the type requires, and binding
the one binds the other. -/
theorem Completes.exists_required (completes : value.Completes type bindings component)
    (conforms : Conformance.problems extends? value type span = [])
    (sized : ∀ interface ∈ type.interfaces, interface.IsSized) {used : Interface}
    (required : used ∈ value.interfaces) (must : mustBeBound used = true) :
    ∃ declared ∈ type.interfaces, mustBeBound declared = true ∧
      ∀ {definition : Definition}, definition.isBound component declared = true →
        definition.isBound component used = true := by
  obtain ⟨client, mandatory, -⟩ := mustBeBound_iff.mp must
  rcases Conformance.declared_or_optional conforms required client with
    ⟨declared, found, stands⟩ | ⟨-, optional⟩
  · obtain ⟨isDeclared, named⟩ := name_of_interface? found
    have isClient : declared.isClient = true := by
      have dual : declared.dual.isServer = true := stands.isServer
      cases role : declared.role <;>
        simp_all [Interface.isClient, Interface.isServer, Interface.dual, Role.flipped]
    refine ⟨declared, isDeclared, mustBeBound_iff.mpr ⟨isClient, stands.contingency mandatory,
      completes.implemented used required must declared found⟩, fun bound => ?_⟩
    exact isBound_of_fitting stands named mandatory (sized declared isDeclared) bound
  · cases mandatory.symm.trans optional

end Definition

end Adl
