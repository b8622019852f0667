import Adl.Proofs.Binding.Coverage

namespace Adl

open Step Context

/-! Which interfaces the check of a composite reports: those that have to be bound and are not
covered. Two kinds of interfaces are reported although they are covered or implemented: collections
without elements, and the inner sides of what controllers serve. -/

namespace Definition

variable {definition : Definition} {context : Context} {component : String} {interface : Interface}

/-- A binding starts from the end. -/
def Starts (definition : Definition) (client : Endpoint) : Prop :=
  client ∈ definition.bindings.map (·.client)

/-- Bindings start from the whole of a collection or from each of its elements, or from
anywhere in an interface of which the size does not matter. -/
def IsCovered (definition : Definition) (component : String) (interface : Interface) : Prop :=
  match interface.cardinality with
  | .collection (some size) =>
      definition.Starts ⟨component, interface.name, none⟩ ∨
        ∀ index < size, definition.Starts ⟨component, interface.name, some index⟩
  | .singleton | .collection none =>
      ∃ index, definition.Starts ⟨component, interface.name, index⟩

/-- A collection without elements is covered by nothing. -/
def IsEmptyCollection (interface : Interface) : Prop :=
  interface.cardinality = .collection (some 0)

theorem mem_indices_iff {index : Option UInt32} :
    index ∈ (definition.bindings.filter fun binding =>
      binding.client.component == component &&
        binding.client.interface == interface.name).map (·.client.index) ↔
      definition.Starts ⟨component, interface.name, index⟩ := by
  constructor
  · intro member
    obtain ⟨binding, isBinding, rfl, sameInterface, rfl⟩ := exists_of_mem_indices member
    exact List.mem_map.mpr ⟨binding, isBinding, by rw [← sameInterface]⟩
  · intro starts
    obtain ⟨binding, isBinding, same⟩ := List.mem_map.mp starts
    refine List.mem_map.mpr ⟨binding, List.mem_filter.mpr ⟨isBinding, ?_⟩, congrArg (·.index) same⟩
    simp [same]

/-- Each of the first elements is among the indices. -/
theorem all_indices_iff {size : UInt32} {indices : List (Option UInt32)} :
    (Nat.all size.toNat fun index _ => indices.contains (some (UInt32.ofNat index))) = true ↔
      ∀ index < size, some index ∈ indices := by
  rw [Nat.all_eq_finRange_all, List.all_eq_true]
  constructor
  · intro all index within
    have each := all ⟨index.toNat, within⟩ (List.mem_finRange _)
    rw [List.contains_iff_mem] at each
    simpa using each
  · rintro all ⟨index, within⟩ -
    have small : index < UInt32.size := within.trans size.toNat_lt
    have isIndex : (UInt32.ofNat index).toNat = index := UInt32.toNat_ofNat_of_lt' small
    rw [List.contains_iff_mem]
    refine all (UInt32.ofNat index) ?_
    rw [UInt32.lt_iff_toNat_lt, isIndex]
    exact within

/-- What is bound is covered, and something is bound even where there are no elements. -/
theorem isBound_iff : definition.isBound component interface = true ↔
    definition.IsCovered component interface ∧
      ∃ index, definition.Starts ⟨component, interface.name, index⟩ := by
  unfold isBound IsCovered
  simp only [← mem_indices_iff]
  generalize (definition.bindings.filter fun binding =>
    binding.client.component == component &&
      binding.client.interface == interface.name).map (·.client.index) = indices
  cases indices with
  | nil => simp
  | cons first rest =>
      have present : ∃ index, index ∈ first :: rest := ⟨first, List.mem_cons_self⟩
      simp only [List.isEmpty_cons, Bool.false_eq_true, if_false, present, and_true]
      unfold Interface.isCollection Interface.isSingleton Interface.elementCount?
      cases interface.cardinality with
      | singleton => simp
      | collection size =>
          cases size with
          | none => simp
          | some size =>
              simp only [Option.map_some, ← all_indices_iff]
              by_cases whole : none ∈ first :: rest <;> simp [whole]

/-! ## What is reported -/

/-- The interfaces to be bound as they are seen inside of a composite, with the component that they
belong to, the place to report them at, and whether a controller of the membrane implements them. -/
inductive Faces (definition : Definition) (context : Context) :
    String → Interface → Span → Bool → Prop
  | internal {interface : Interface} : interface ∈ definition.internalInterfaces →
      Faces definition context Endpoint.selfName interface interface.span interface.isController
  | external {interface : Interface} : interface ∈ definition.interfaces →
      definition.internalInterface? interface.name = none →
      Faces definition context Endpoint.selfName interface.dual interface.span
        interface.isController
  | part {component : Component} {id : DefinitionId} {interface : Interface} :
      component ∈ definition.components →
      definition.componentDefinition? component.name = some id →
      interface ∈ (context.definition id).interfaces →
      Faces definition context component.name interface component.span interface.isController

/-- A mandatory client that no controller implements is not covered. -/
def LacksBinding (definition : Definition) (context : Context) (reported : String × Span) : Prop :=
  ∃ component interface span, definition.Faces context component interface span false ∧
    interface.isClient = true ∧ interface.isMandatory = true ∧
    ¬definition.IsCovered component interface ∧
    reported = (component ++ "." ++ interface.name, span)

/-- A mandatory client is the inner side of an interface that a controller serves, and no binding
covers it. -/
def LacksDelegation (definition : Definition) (reported : String × Span) : Prop :=
  ∃ interface ∈ definition.interfaces, definition.internalInterface? interface.name = none ∧
    interface.isController = true ∧ interface.isServer = true ∧ interface.isMandatory = true ∧
    ¬definition.IsCovered Endpoint.selfName interface ∧
    reported = (Endpoint.selfName ++ "." ++ interface.name, interface.span)

/-- A mandatory client has no elements that could be bound. -/
def LacksElements (definition : Definition) (context : Context) (reported : String × Span) : Prop :=
  ∃ component interface span implemented, definition.Faces context component interface span implemented ∧
    mustBeBound interface = true ∧ IsEmptyCollection interface ∧
    (∀ index, ¬definition.Starts ⟨component, interface.name, index⟩) ∧
    reported = (component ++ "." ++ interface.name, span)

theorem mustBeBound_iff : mustBeBound interface = true ↔
    interface.isClient = true ∧ interface.isMandatory = true ∧ interface.isController = false := by
  simp [mustBeBound, and_assoc]

/-- What is unbound is not covered, or a collection without elements. -/
theorem not_isBound_iff : definition.isBound component interface = false ↔
    ¬definition.IsCovered component interface ∨ IsEmptyCollection interface ∧
      ∀ index, ¬definition.Starts ⟨component, interface.name, index⟩ := by
  rw [← Bool.not_eq_true, isBound_iff, not_and_or, not_exists]
  constructor
  · rintro (uncovered | none)
    · exact .inl uncovered
    · by_cases covered : definition.IsCovered component interface
      · refine .inr ⟨?_, none⟩
        unfold IsCovered at covered
        split at covered
        · rename_i size collection
          rcases covered with whole | each
          · exact absurd whole (none _)
          · have few : ¬(0 : UInt32) < size := fun positive => none _ (each 0 positive)
            have zero : size = 0 := by simpa [UInt32.pos_iff_ne_zero] using few
            rw [zero] at collection
            exact collection
        · exact absurd covered (not_exists.mpr none)
        · exact absurd covered (not_exists.mpr none)
      · exact .inl covered
  · rintro (uncovered | ⟨-, none⟩)
    · exact .inl uncovered
    · exact .inr none

/-- The interfaces among which those to be reported are looked for. -/
theorem mem_unbound_iff {reported : String × Span} : reported ∈ definition.unbound context ↔
    ∃ component interface span implemented,
      definition.Faces context component interface span implemented ∧
      mustBeBound interface = true ∧ definition.isBound component interface = false ∧
      reported = (component ++ "." ++ interface.name, span) := by
  unfold unbound unboundInside insideInterfaces unboundOf
  constructor
  · intro member
    rcases List.mem_append.mp member with inside | outside
    · obtain ⟨interface, among, rfl⟩ := List.mem_map.mp inside
      obtain ⟨faces, open'⟩ := List.mem_filter.mp among
      obtain ⟨must, unbound⟩ := Bool.and_eq_true_iff.mp open'
      rcases List.mem_append.mp faces with internal | external
      · exact ⟨_, interface, _, _, .internal internal, must, by simpa using unbound, rfl⟩
      · obtain ⟨declared, isDeclared, rfl⟩ := List.mem_map.mp external
        obtain ⟨isExternal, untwinned⟩ := List.mem_filter.mp isDeclared
        exact ⟨_, declared.dual, _, _, .external isExternal (by simpa using untwinned), must,
          by simpa using unbound, rfl⟩
    · obtain ⟨component, isComponent, open'⟩ := List.mem_flatMap.mp outside
      split at open'
      · exact nomatch open'
      · rename_i id designated
        obtain ⟨interface, among, rfl⟩ := List.mem_map.mp open'
        obtain ⟨declared, open'⟩ := List.mem_filter.mp among
        obtain ⟨must, unbound⟩ := Bool.and_eq_true_iff.mp open'
        exact ⟨_, interface, _, _, .part isComponent designated declared, must,
          by simpa using unbound, rfl⟩
  · rintro ⟨component, interface, span, implemented, faces, must, unbound, rfl⟩
    cases faces with
    | internal member =>
        refine List.mem_append_left _ (List.mem_map.mpr ⟨interface, List.mem_filter.mpr
          ⟨List.mem_append_left _ member, ?_⟩, rfl⟩)
        simp [must, unbound]
    | external member untwinned =>
        refine List.mem_append_left _ (List.mem_map.mpr ⟨_, List.mem_filter.mpr
          ⟨List.mem_append_right _ (List.mem_map_of_mem (List.mem_filter.mpr ⟨member, ?_⟩)), ?_⟩,
            rfl⟩)
        · simp [untwinned]
        · simp [must, unbound]
    | part member designated declared =>
        refine List.mem_append_right _ (List.mem_flatMap.mpr ⟨_, member, ?_⟩)
        rw [designated]
        refine List.mem_map.mpr ⟨interface, List.mem_filter.mpr ⟨declared, ?_⟩, rfl⟩
        simp [must, unbound]

/-- An interface bears the mark of a controller, or is the inner side of one that does. -/
theorem Faces.marked {span : Span} {implemented : Bool}
    (faces : definition.Faces context component interface span implemented) :
    interface.isController = implemented ∨ ∃ declared ∈ definition.interfaces,
      definition.internalInterface? declared.name = none ∧ declared.isController = implemented ∧
        component = Endpoint.selfName ∧ interface = declared.dual ∧ span = declared.span := by
  cases faces with
  | internal => exact .inl rfl
  | external member untwinned => exact .inr ⟨_, member, untwinned, rfl, rfl, rfl, rfl⟩
  | part => exact .inl rfl

/-- What is unbound lacks bindings, or has no elements to bind, or is what a controller serves. -/
theorem mem_unbound_iff_lacks {reported : String × Span} : reported ∈ definition.unbound context ↔
    definition.LacksBinding context reported ∨ definition.LacksDelegation reported ∨
      definition.LacksElements context reported := by
  rw [mem_unbound_iff]
  constructor
  · rintro ⟨component, interface, span, implemented, faces, must, unbound, isReported⟩
    obtain ⟨client, mandatory, unmarked⟩ := mustBeBound_iff.mp must
    rcases not_isBound_iff.mp unbound with uncovered | ⟨empty, none⟩
    · cases implemented with
      | false =>
          exact .inl ⟨component, interface, span, faces, client, mandatory, uncovered, isReported⟩
      | true =>
          -- Only the inner side of an external interface comes without the mark.
          rcases faces.marked with marked | ⟨declared, member, untwinned, isMarked, rfl, rfl, rfl⟩
          · exact nomatch unmarked.symm.trans marked
          · refine .inr (.inl ⟨declared, member, untwinned, isMarked, ?_, mandatory, uncovered,
              isReported⟩)
            cases role : declared.role with
            | client => simp [Interface.isClient, Interface.dual, Role.flipped, role] at client
            | server => simp [Interface.isServer, role]
    · exact .inr (.inr ⟨component, interface, span, implemented, faces, must, empty, none, isReported⟩)
  · rintro (⟨component, interface, span, faces, client, mandatory, uncovered, isReported⟩ |
      ⟨interface, member, untwinned, -, server, mandatory, uncovered, isReported⟩ |
      ⟨component, interface, span, implemented, faces, must, empty, none, isReported⟩)
    · have unmarked : interface.isController = false := by
        rcases faces.marked with marked | ⟨declared, -, -, -, -, rfl, -⟩
        · exact marked
        · rfl
      exact ⟨component, interface, span, false, faces,
        mustBeBound_iff.mpr ⟨client, mandatory, unmarked⟩, not_isBound_iff.mpr (.inl uncovered),
        isReported⟩
    · have client : interface.dual.isClient = true := by
        cases role : interface.role with
        | client => simp [Interface.isServer, role] at server
        | server => simp [Interface.isClient, Interface.dual, Role.flipped, role]
      exact ⟨_, interface.dual, _, _, .external member untwinned,
        mustBeBound_iff.mpr ⟨client, mandatory, rfl⟩, not_isBound_iff.mpr (.inl uncovered),
        isReported⟩
    · exact ⟨component, interface, span, implemented, faces, must,
        not_isBound_iff.mpr (.inr ⟨empty, none⟩), isReported⟩

/-- The report tells of the first end, and of the others in its labels. -/
theorem unboundReport_eq (name : String) (first : String × Span) (others : List (String × Span)) :
    unboundReport name first others =
      { kind := .unboundInterface
        severity := .error
        span := first.2
        message := "client interface '" ++ first.1 ++ "' of '" ++ name ++ "' is not bound"
        labels := others.map fun other => ⟨other.2, "'" ++ other.1 ++ "' is not bound either"⟩
        notes := [] } := by
  have labelled : ∀ (others : List (String × Span)) (diagnostic : Diagnostic),
      others.foldl (fun diagnostic other =>
        diagnostic.withLabel other.2 ("'" ++ other.1 ++ "' is not bound either")) diagnostic =
      { diagnostic with
        labels := diagnostic.labels ++
          others.map fun other => ⟨other.2, "'" ++ other.1 ++ "' is not bound either"⟩ } := by
    intro others
    induction others with
    | nil => exact fun diagnostic => by simp
    | cons other rest induction =>
        intro diagnostic
        rw [List.foldl_cons, induction]
        simp [Diagnostic.withLabel]
  exact labelled others _

end Definition

/-- The check of a definition changes nothing. It fails exactly where something lacks bindings,
where a controller serves what is mandatory or where a mandatory collection is empty, each of it
without a binding, and reports all of it. -/
theorem reports_uncovered (context : Context) (name : String) (id : DefinitionId) :
    ∃ ends : List (String × Span),
      (∀ reported, reported ∈ ends ↔ (context.definition id).isComposite = true ∧
        (context.definition id).isAbstract = false ∧
        ((context.definition id).LacksBinding context reported ∨
          (context.definition id).LacksDelegation reported ∨
          (context.definition id).LacksElements context reported)) ∧
      requireBound name id context =
        match ends with
        | [] => (.ok (), context)
        | first :: others =>
            (.error (.fatal {
              kind := .unboundInterface
              severity := .error
              span := first.2
              message := "client interface '" ++ first.1 ++ "' of '" ++ name ++ "' is not bound"
              labels := others.map fun other => ⟨other.2, "'" ++ other.1 ++ "' is not bound either"⟩
              notes := [] }), context) := by
  unfold requireBound
  rw [Step.bind_of_ok (rfl : Loading.definition id context = (.ok (context.definition id), context))]
  by_cases checked : (context.definition id).isComposite = true ∧
      (context.definition id).isAbstract = false
  · obtain ⟨composite, concrete⟩ := checked
    refine ⟨(context.definition id).unbound context, fun reported => ?_, ?_⟩
    · simp only [Definition.mem_unbound_iff_lacks, composite, concrete, true_and]
    · simp only [composite, concrete, Bool.not_false, Bool.and_self, if_true]
      rw [Step.bind_of_ok (rfl : Loading.context context = (.ok context, context))]
      split
      · rename_i none
        rw [none]
        rfl
      · rename_i first others some
        rw [some, ← Definition.unboundReport_eq]
        rfl
  · refine ⟨[], fun reported => ?_, ?_⟩
    · constructor
      · intro member
        cases member
      · rintro ⟨composite, concrete, -⟩
        exact absurd ⟨composite, concrete⟩ checked
    · have unchecked :
          ((context.definition id).isComposite && !(context.definition id).isAbstract) = false := by
        cases composite : (context.definition id).isComposite <;>
          cases concrete : (context.definition id).isAbstract <;> simp_all
      rw [unchecked]
      rfl

namespace FrontEnd

/-- A compilation ends with these errors. -/
def Refuses (definitions : List Definition) (roots : List String) (errors : List Diagnostic) :
    Prop :=
  match (registeredOnly.compile (.ofDefinitions .default definitions) roots).outcome with
  | .ok _ => False
  | .error found => found = errors

instance (definitions : List Definition) (roots : List String) (errors : List Diagnostic) :
    Decidable (Refuses definitions roots errors) := by
  unfold Refuses
  split <;> infer_instance

/-- Nothing is left to bind in these composites: the one holds nothing, but its life cycle is
controlled, and the interface of the part of the other has no elements. Both are refused. -/
theorem refuses_covered :
    Refuses [{ holding [] [] [] with
        annotations := ⟨[.ofType "LifeCycleController"], []⟩ }] ["a.Top"]
      [.error .unboundInterface .generated
        "client interface 'this.lifeCycleController' of 'a.Top' is not bound"] ∧
    Refuses [offering "a.C" { Interface.ofRole .client "x" "s" with
          cardinality := .collection (some 0) },
        holding [] [part "c" "a.C"] []] ["a.Top"]
      [.error .unboundInterface .generated "client interface 'c.x' of 'a.Top' is not bound"] := by
  decide +kernel

end FrontEnd

end Adl
