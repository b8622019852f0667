import Adl.Proofs.Foundation.Additions
import Adl.Proofs.Loading.Collecting
import Adl.Proofs.Loading.Composition

namespace Adl

open Step

/-! Taking over what a parent hands on. Each kind of element has its own rule by which an element
of the child replaces an inherited one, and each element replaces itself. So all that could be
taken over from a parent is there after one merge, and a second one finds nothing to take and
nothing to complain of that the first has not found. -/

namespace Inheritance

/-! ## Elements -/

variable (child parent : Definition)

theorem interfaces_merged : (merged child parent).interfaces =
    takenOver (fun own inherited => own.name == inherited.name) child.interfaces
      parent.interfaces :=
  takenOver.of_find? Interface.name _ _

theorem internalInterfaces_merged : (merged child parent).internalInterfaces =
    takenOver (fun own inherited => own.name == inherited.name) child.internalInterfaces
      parent.internalInterfaces :=
  takenOver.of_find? Interface.name _ _

theorem attributes_merged : (merged child parent).attributes =
    takenOver (fun own inherited => own.name == inherited.name) child.attributes
      parent.attributes :=
  takenOver.of_find? Attribute.name _ _

theorem components_merged : (merged child parent).components =
    takenOver (fun own inherited => own.name == inherited.name) child.components
      parent.components :=
  takenOver.of_find? Component.name _ _

theorem bindings_merged : (merged child parent).bindings =
    takenOver (fun own inherited => sameClient inherited own) child.bindings parent.bindings :=
  rfl

theorem sources_merged : (merged child parent).sources =
    takenOver (fun own inherited => own.path == inherited.path) child.sources parent.sources :=
  rfl

theorem controllers_merged : (merged child parent).controllers =
    takenOver Controller.isSame child.controllers parent.controllers :=
  rfl

/-- Elements that are inherited come before the child's own, in the order in which the parent has
them: all those that the child does not replace. -/
structure InheritedFirst (child parent result : Definition) : Prop where
  interfaces : PutsFirst (·.name = ·.name) parent.interfaces child.interfaces result.interfaces
  internalInterfaces : PutsFirst (·.name = ·.name) parent.internalInterfaces
    child.internalInterfaces result.internalInterfaces
  attributes : PutsFirst (·.name = ·.name) parent.attributes child.attributes result.attributes
  components : PutsFirst (·.name = ·.name) parent.components child.components result.components
  bindings : PutsFirst (fun own inherited => own.client.component = inherited.client.component ∧
    own.client.interface = inherited.client.interface)
    parent.bindings child.bindings result.bindings
  sources : PutsFirst (·.path = ·.path) parent.sources child.sources result.sources
  controllers : PutsFirst (·.withoutTyped = ·.withoutTyped) parent.controllers
    child.controllers result.controllers

theorem inheritedFirst_merged : InheritedFirst child parent (merged child parent) where
  interfaces := interfaces_merged child parent ▸
    (takenOver.putsFirst _ _ _).congr fun _ _ => beq_iff_eq
  internalInterfaces := internalInterfaces_merged child parent ▸
    (takenOver.putsFirst _ _ _).congr fun _ _ => beq_iff_eq
  attributes := attributes_merged child parent ▸
    (takenOver.putsFirst _ _ _).congr fun _ _ => beq_iff_eq
  components := components_merged child parent ▸
    (takenOver.putsFirst _ _ _).congr fun _ _ => beq_iff_eq
  bindings := bindings_merged child parent ▸
    (takenOver.putsFirst _ _ _).congr fun own inherited => by
      rw [sameClient, Bool.and_eq_true, beq_iff_eq, beq_iff_eq]
      exact and_congr eq_comm eq_comm
  sources := sources_merged child parent ▸
    (takenOver.putsFirst _ _ _).congr fun _ _ => beq_iff_eq
  controllers := controllers_merged child parent ▸
    (takenOver.putsFirst _ _ _).congr fun _ _ => beq_iff_eq

/-! ## Merging twice -/

theorem sameClient_self (binding : Binding) : sameClient binding binding = true := by
  rw [sameClient, beq_self_eq_true, beq_self_eq_true, Bool.and_self]

theorem sharedImplementations_again :
    appendNew (appendNew child.decorations.sharedImplementations
      parent.decorations.sharedImplementations) parent.decorations.sharedImplementations =
    appendNew child.decorations.sharedImplementations
      parent.decorations.sharedImplementations := by
  simp only [appendNew_eq]
  exact addNew.again id _ _

theorem annotations_again :
    (child.annotations.union parent.annotations).union parent.annotations =
      child.annotations.union parent.annotations := by
  simp only [Annotations.union_eq, addNew.again]

theorem capabilities_again :
    (child.capabilities.union parent.capabilities).union parent.capabilities =
      child.capabilities.union parent.capabilities := by
  simp only [MemberSet.union, UInt16.or_assoc, UInt16.or_self]

/-- A second merge changes no field. -/
theorem merged_merged : merged (merged child parent) parent = merged child parent := by
  have interfaces : (merged (merged child parent) parent).interfaces =
      (merged child parent).interfaces := by
    rw [interfaces_merged, interfaces_merged]
    exact takenOver.again_keyed Interface.name _ _
  have internal : (merged (merged child parent) parent).internalInterfaces =
      (merged child parent).internalInterfaces := by
    rw [internalInterfaces_merged, internalInterfaces_merged]
    exact takenOver.again_keyed Interface.name _ _
  have attributes : (merged (merged child parent) parent).attributes =
      (merged child parent).attributes := by
    rw [attributes_merged, attributes_merged]
    exact takenOver.again_keyed Attribute.name _ _
  have components : (merged (merged child parent) parent).components =
      (merged child parent).components := by
    rw [components_merged, components_merged]
    exact takenOver.again_keyed Component.name _ _
  have bindings : (merged (merged child parent) parent).bindings =
      (merged child parent).bindings := by
    rw [bindings_merged, bindings_merged]
    exact takenOver.again (fun own inherited => sameClient inherited own) sameClient_self _ _
  have sources : (merged (merged child parent) parent).sources =
      (merged child parent).sources := by
    rw [sources_merged, sources_merged]
    exact takenOver.again_keyed Source.path _ _
  have controllers : (merged (merged child parent) parent).controllers =
      (merged child parent).controllers := by
    rw [controllers_merged, controllers_merged]
    exact takenOver.again_keyed Controller.withoutTyped _ _
  have shared := congrArg (fun shared =>
    { child.decorations with sharedImplementations := shared })
    (sharedImplementations_again child parent)
  exact (Definition.mk.injEq ..).mpr ⟨rfl, rfl, capabilities_again child parent, rfl, rfl, rfl, rfl,
    rfl, interfaces, internal, attributes, components, bindings, sources, controllers,
    annotations_again child parent, shared⟩

/-! ## Problems -/

theorem interfaceOverrides_merged :
    interfaceOverrides (merged child parent) parent = interfaceOverrides child parent := by
  unfold interfaceOverrides
  rw [interfaces_merged, takenOver.filter fun item member => ?_]
  rw [Definition.interface?, isNone_find?_of_mem Interface.name member, Bool.and_false]

theorem attributeOverrides_merged :
    attributeOverrides (merged child parent) parent = attributeOverrides child parent := by
  unfold attributeOverrides
  rw [attributes_merged, takenOver.filter fun item member => ?_]
  rw [Definition.attribute?, isNone_find?_of_mem Attribute.name member, Bool.and_false]

theorem componentOverrides_merged :
    componentOverrides (merged child parent) parent = componentOverrides child parent := by
  unfold componentOverrides
  rw [components_merged, takenOver.filter fun item member => ?_]
  rw [Definition.component?, isNone_find?_of_mem Component.name member, Bool.and_false]

theorem bindingOverrides_merged :
    bindingOverrides (merged child parent) parent = bindingOverrides child parent := by
  unfold bindingOverrides
  rw [bindings_merged, takenOver.filter fun item member => ?_]
  have overridden : parent.bindings.any (sameClient item) = true :=
    List.any_eq_true.mpr ⟨item, member, sameClient_self item⟩
  rw [overridden, Bool.not_true, Bool.and_false]

theorem sourceOverrides_merged :
    sourceOverrides (merged child parent) parent = sourceOverrides child parent := by
  unfold sourceOverrides
  rw [sources_merged, takenOver.filter fun item member => ?_]
  have overridden : parent.sources.any (·.path == item.path) = true :=
    List.any_eq_true.mpr ⟨item, member, beq_self_eq_true item.path⟩
  rw [overridden, Bool.not_true, Bool.and_false]

/-- An interface that was taken over is the same as itself. -/
theorem interfaceConflicts_merged (distinct : (parent.interfaces.map (·.name)).Nodup) :
    interfaceConflicts (merged child parent) parent = interfaceConflicts child parent := by
  refine List.filterMap_congr fun inherited member => ?_
  have itself : parent.interfaces.find? (·.name == inherited.name) = some inherited :=
    find?_of_nodup distinct member
  rw [Definition.interface?, interfaces_merged, takenOver.find? Interface.name, itself,
    ← Definition.interface?]
  cases child.interface? inherited.name with
  | some own => rfl
  | none => exact if_pos (beq_self_eq_true inherited.withoutTyped)

/-- An attribute that was taken over has its own type. -/
theorem attributeConflicts_merged (distinct : (parent.attributes.map (·.name)).Nodup) :
    attributeConflicts (merged child parent) parent = attributeConflicts child parent := by
  refine List.filterMap_congr fun inherited member => ?_
  have itself : parent.attributes.find? (·.name == inherited.name) = some inherited :=
    find?_of_nodup distinct member
  rw [Definition.attribute?, attributes_merged, takenOver.find? Attribute.name, itself,
    ← Definition.attribute?]
  cases child.attribute? inherited.name with
  | some own => rfl
  | none => exact if_pos rfl

/-- A second merge finds what the first one found: an element that was taken over overrides itself,
and as it is. -/
theorem problems_merged (checksMarkers : Bool)
    (interfaces : (parent.interfaces.map (·.name)).Nodup)
    (attributes : (parent.attributes.map (·.name)).Nodup) :
    problems (merged child parent) parent checksMarkers = problems child parent checksMarkers := by
  simp only [problems, interfaceOverrides_merged, interfaceConflicts_merged child parent interfaces,
    attributeOverrides_merged, attributeConflicts_merged child parent attributes,
    componentOverrides_merged, bindingOverrides_merged, sourceOverrides_merged]

/-- Where errors are collected, a merge that is made again changes nothing: neither the definition,
nor what has been reported. -/
theorem inherit_again (checksMarkers : Bool) (context : Context)
    (collects : context.log.policy = .collect)
    (interfaces : (parent.interfaces.map (·.name)).Nodup)
    (attributes : (parent.attributes.map (·.name)).Nodup) :
    ∃ result reached,
      inherit checksMarkers child parent context = (.ok result, reached) ∧
      inherit checksMarkers result parent reached = (.ok result, reached) ∧
      InheritedFirst child parent result := by
  have errors := Parents.areErrors_problems child parent checksMarkers
  have known : (context.collected (problems child parent checksMarkers)).collected
      (problems child parent checksMarkers) =
        context.collected (problems child parent checksMarkers) :=
    Context.collected_of_known fun _ member => Context.mem_errors_collected.mpr (.inr member)
  refine ⟨merged child parent, context.collected (problems child parent checksMarkers), ?_, ?_,
    inheritedFirst_merged child parent⟩
  · exact bind_of_ok (Loading.recordAll_of_collecting collects errors)
  · unfold inherit
    rw [problems_merged child parent checksMarkers interfaces attributes, merged_merged]
    have stillCollects :
        (context.collected (problems child parent checksMarkers)).log.policy = .collect := collects
    refine (bind_of_ok (Loading.recordAll_of_collecting stillCollects errors)).trans ?_
    rw [known]
    rfl

/-- A primitive that turns an inherited interface round and overrides an attribute that it does not
inherit. -/
def heir : Definition :=
  { Definition.ofKind "a.C" .primitive with
    interfaces := [.ofRole .client "run" "a.Run", .ofRole .server "own" "a.Own"]
    attributes := [⟨"size", "int", none, .generated, ⟨[.ofType Annotation.overrideKind], []⟩⟩]
    sources := [.ofPath "c.c"] }

def testator : Definition :=
  { Definition.ofKind "a.P" .primitive with
    interfaces := [.ofRole .server "run" "a.Run", .ofRole .server "more" "a.More"]
    sources := [.ofPath "p.c", .ofPath "c.c"] }

/-- Both errors of the heir are found by the first merge, and none by the second. -/
theorem heir_inherits_once :
    (problems heir testator true).map (·.kind) = [.invalidOverride, .invalidOverride] ∧
      ∃ result reached,
        inherit true heir testator default = (.ok result, reached) ∧
        inherit true result testator reached = (.ok result, reached) ∧
        InheritedFirst heir testator result :=
  ⟨by decide, inherit_again heir testator true default rfl (by decide) (by decide)⟩

end Inheritance

end Adl
