import Adl.Proofs.Definition.Growth
import Adl.Proofs.Definition.Merging

namespace Adl

/-! Upgrades in turn. To get a capability a definition is merged with one that has nothing else.
Names and origins cannot contradict each other then, nothing is appended or left out, and only a
span in memory may change. So any upgrades after another bring the capabilities that were asked for
and nothing else. -/

namespace MemberSet

section

variable {α : Type} [Member α] {set : MemberSet α} {item : α}

/-- A member that is there is not added. -/
theorem union_single_of_contains (contains : set.contains item = true) :
    set.union (.single item) = set := by
  obtain ⟨bits⟩ := set
  have isBit : ∃ place, (bit item).toBitVec = BitVec.twoPow 16 place := by
    unfold bit
    rw [UInt16.toBitVec_shiftLeft, BitVec.shiftLeft_eq']
    exact ⟨_, (BitVec.twoPow_eq ..).symm⟩
  obtain ⟨place, isBit⟩ := isBit
  have present : bits.toBitVec.getLsbD place = true := by
    by_contra absent
    have none : bits &&& bit item = 0 := by
      refine UInt16.toBitVec_inj.mp ?_
      rw [UInt16.toBitVec_and, isBit, BitVec.and_twoPow, if_neg absent]
      rfl
    simp [MemberSet.contains, none] at contains
  refine congrArg MemberSet.mk (UInt16.toBitVec_inj.mp (BitVec.eq_of_getLsbD_eq fun index _ => ?_))
  rw [single, UInt16.toBitVec_or, isBit, BitVec.getLsbD_or, BitVec.getLsbD_twoPow]
  by_cases same : place = index
  · rw [← same, present, Bool.true_or]
  · simp [same]

omit [Member α] in
theorem union_comm (left right : MemberSet α) : left.union right = right.union left :=
  congrArg MemberSet.mk (UInt16.or_comm ..)

/-- To unite with a list is to add its items one after the other. -/
theorem union_ofList (set : MemberSet α) (items : List α) :
    set.union (.ofList items) = items.foldl (fun set item => set.union (.single item)) set := by
  have fromAny : ∀ start : MemberSet α, set.union (items.foldl insert start) =
      items.foldl (fun set item => set.union (.single item)) (set.union start) := by
    induction items with
    | nil => exact fun _ => rfl
    | cons item rest induction =>
        intro start
        rw [List.foldl_cons, induction, List.foldl_cons, union_assoc]
        rfl
  have none : set.union empty = set := congrArg MemberSet.mk (UInt16.or_zero ..)
  rw [ofList, fromAny, none]

theorem union_ofList_of_contains {items : List α}
    (contains : ∀ item ∈ items, set.contains item = true) : set.union (.ofList items) = set := by
  rw [union_ofList]
  induction items with
  | nil => rfl
  | cons item rest induction =>
      obtain ⟨first, others⟩ := List.forall_mem_cons.mp contains
      rw [List.foldl_cons, union_single_of_contains first]
      exact induction others

end

theorem contains_single (item other : Capability) :
    (MemberSet.single item).contains other = decide (item = other) := by
  cases item <;> cases other <;> decide

theorem contains_ofList {items : List Capability} {capability : Capability} :
    (MemberSet.ofList items).contains capability = true ↔ capability ∈ items := by
  have fromAny : ∀ start : Capabilities, (items.foldl insert start).contains capability = true ↔
      start.contains capability = true ∨ capability ∈ items := by
    induction items with
    | nil => simp
    | cons item rest induction =>
        intro start
        have inserted : (start.insert item).contains capability = true ↔
            start.contains capability = true ∨ capability = item := by
          rw [show start.insert item = start.union (.single item) from rfl, contains_union,
            contains_single, Bool.or_eq_true, decide_eq_true_iff, eq_comm (a := item)]
        rw [List.foldl_cons, induction, inserted, List.mem_cons, or_assoc]
  have none : ¬(empty : Capabilities).contains capability = true := by
    cases capability <;> decide
  exact (fromAny empty).trans (or_iff_right none)

/-- A set of capabilities does not tell in which order they were listed, nor how often. -/
theorem ofList_congr {items others : List Capability}
    (same : ∀ capability, capability ∈ items ↔ capability ∈ others) :
    (MemberSet.ofList items : Capabilities) = .ofList others := by
  have absorbs : ∀ {left right : List Capability}, left ⊆ right →
      (MemberSet.ofList right : Capabilities).union (.ofList left) = .ofList right :=
    fun subset => union_ofList_of_contains fun _ member => contains_ofList.mpr (subset member)
  rw [← absorbs fun _ => (same _).mpr, union_comm, absorbs fun _ => (same _).mp]

end MemberSet

theorem Span.orElse_orElse (span other : Span) :
    (span.orElse other).orElse other = span.orElse other := by
  unfold orElse
  split
  · exact ite_self other
  · rfl

namespace Definition

/-- The span of a definition that gets new capabilities: a span in memory loses its position. -/
def spanWith (definition : Definition) (capabilities : List Capability) : Span :=
  if capabilities.all definition.has then definition.span else definition.span.orElse .generated

/-- A new capability is all that an upgrade brings. -/
theorem upgrade_eq_ok (definition : Definition) (capability : Capability) :
    definition.upgrade capability = .ok { definition with
      span := definition.spanWith [capability]
      capabilities := definition.capabilities.union (.single capability) } := by
  unfold upgrade
  split
  · rename_i has
    rw [spanWith, if_pos (by simpa using has), MemberSet.union_single_of_contains has]
  · rename_i lacks
    rw [spanWith, if_neg (by simpa using lacks)]
    simp only [merge, bare, mergeName_self, merge_none, bind, Except.bind, pure,
      Except.pure, List.append_nil, Bool.or_false]
    rfl

/-- Further upgrades leave the span as all of them would make it at once. -/
theorem spanWith_upgraded {definition between : Definition} {first : Capability}
    (rest : List Capability) (span : between.span = definition.spanWith [first])
    (capabilities : between.capabilities = definition.capabilities.union (.single first)) :
    between.spanWith rest = definition.spanWith (first :: rest) := by
  by_cases known : definition.has first = true
  · rw [MemberSet.union_single_of_contains known] at capabilities
    have same : between.has = definition.has := funext fun capability => by
      rw [has, has, capabilities]
    rw [spanWith, if_pos (by simpa using known)] at span
    rw [spanWith, spanWith, same, span, List.all_cons, known, Bool.true_and]
  · rw [spanWith, if_neg (by simpa using known)] at span
    have lost : definition.spanWith (first :: rest) = definition.span.orElse .generated :=
      if_neg (by simp [known])
    rw [lost, spanWith, span]
    split
    · rfl
    · exact Span.orElse_orElse ..

/-- Upgrades in turn do not fail, and bring what they would bring at once. -/
theorem foldlM_upgrade (definition : Definition) (requested : List Capability) :
    requested.foldlM upgrade definition = .ok { definition with
      span := definition.spanWith requested
      capabilities := definition.capabilities.union (.ofList requested) } := by
  simp only [MemberSet.union_ofList]
  induction requested generalizing definition with
  | nil => rfl
  | cons first rest induction =>
      rw [List.foldlM_cons, upgrade_eq_ok]
      change List.foldlM upgrade _ rest = _
      rw [induction, spanWith_upgraded rest rfl rfl]
      rfl

/-- A span that points into a file is kept, and so is the one that points nowhere. -/
theorem spanWith_eq {definition : Definition} (requested : List Capability)
    (placed : definition.span.isGenerated = false ∨ definition.span = .generated) :
    definition.spanWith requested = definition.span := by
  unfold spanWith
  split
  · rfl
  · rcases placed with inFile | nowhere
    · rw [Span.orElse, inFile, if_neg Bool.false_ne_true]
    · rw [nowhere]
      rfl

/-- A position in memory is lost. -/
example : (upgrade { ofKind "a.P" .primitive with span := ⟨Span.generatedFile, 5, 8, 1⟩ }
    .bindings).toOption.map Definition.span = some .generated := by
  decide

/-- Upgrades in turn do not fail, and all that they change of a definition are its capabilities: it
has those that it had and those that were asked for. In which order this was, and how often, makes
no difference. -/
theorem upgrades_only_extend (definition : Definition) (requested : List Capability)
    (placed : definition.span.isGenerated = false ∨ definition.span = .generated) :
    ∃ extended, requested.foldlM upgrade definition = .ok extended ∧
      extended = { definition with
        capabilities := definition.capabilities.union (.ofList requested) } ∧
      (∀ capability, extended.has capability = true ↔
        definition.has capability = true ∨ capability ∈ requested) ∧
      ∀ others : List Capability, (∀ capability, capability ∈ others ↔ capability ∈ requested) →
        others.foldlM upgrade definition = .ok extended := by
  refine ⟨_, foldlM_upgrade definition requested, ?_, fun capability => ?_, fun others same => ?_⟩
  · rw [spanWith_eq requested placed]
  · rw [has, MemberSet.contains_union, Bool.or_eq_true, MemberSet.contains_ofList, has]
  · rw [foldlM_upgrade, spanWith_eq others placed, spanWith_eq requested placed,
      MemberSet.ofList_congr same]

/-- A definition of a file without a name, whose annotations and shared implementations repeat. -/
def repeating : Definition :=
  { ofKind "" .primitive with
    span := ⟨0, 5, 8, 1⟩
    interfaces := [.ofRole .server "s" "a.I", .ofRole .server "s" "a.I"]
    annotations :=
      ⟨List.replicate 2 (.ofType Annotation.singletonKind), List.replicate 2 .singleton⟩
    decorations := { Decorations.none with sharedImplementations := ["a.c", "a.c"] } }

/-- It is the same with controllers and components. -/
theorem repeating_extended :
    ∃ extended, [Capability.controllers, .components, .controllers].foldlM upgrade repeating =
        .ok extended ∧
      extended.name = "" ∧ extended.interfaces = repeating.interfaces ∧
      extended.annotations = repeating.annotations ∧
      extended.decorations.sharedImplementations = ["a.c", "a.c"] ∧
      extended.has .controllers = true ∧ extended.has .bindings = false ∧
      [Capability.components, .controllers].foldlM upgrade repeating = .ok extended := by
  obtain ⟨extended, succeeds, rfl, capabilities, others⟩ :=
    upgrades_only_extend repeating [.controllers, .components, .controllers] (.inl rfl)
  have bindings : ¬(repeating.has .bindings = true ∨
      Capability.bindings ∈ [Capability.controllers, .components, .controllers]) := by
    decide
  refine ⟨_, succeeds, rfl, rfl, rfl, rfl, (capabilities .controllers).mpr (.inr (by decide)),
    Bool.eq_false_iff.mpr (bindings ∘ (capabilities .bindings).mp), others _ fun capability => ?_⟩
  cases capability <;> decide

end Definition

end Adl
