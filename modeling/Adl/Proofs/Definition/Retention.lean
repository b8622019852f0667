import Adl.Proofs.Loading.Inheritance

namespace Adl

/-! What a definition keeps of what it declares, however far the stages have come with it: they
rewrite elements in place and add others, but take none away. Only bindings give way to those that
they stand for, and to the first one from the same end. -/

/-- What stands in the text of a sub-component apart from its reference. -/
def Component.declared (component : Component) : String × Option String × List AnnotationNode :=
  (component.name, component.typeParameter, component.annotations.nodes)

def Source.declared (source : Source) : String × List AnnotationNode :=
  (source.path, source.annotations.nodes)

/-- An attribute may be given a value, if it has none. -/
structure Attribute.Keeps (kept declared : Attribute) : Prop where
  name : kept.name = declared.name
  typeName : kept.typeName = declared.typeName
  value : ∀ value, declared.value = some value → kept.value = some value
  annotations : kept.annotations.nodes = declared.annotations.nodes

namespace Attribute.Keeps

variable {first second third : Attribute}

theorem refl (declared : Attribute) : declared.Keeps declared :=
  ⟨rfl, rfl, fun _ => id, rfl⟩

theorem trans (later : third.Keeps second) (earlier : second.Keeps first) : third.Keeps first where
  name := later.name.trans earlier.name
  typeName := later.typeName.trans earlier.typeName
  value value found := later.value value (earlier.value value found)
  annotations := later.annotations.trans earlier.annotations

theorem of_settles (settles : first.Settles second) : second.Keeps first := by
  rcases settles with rfl | ⟨absent, value, -, rfl⟩
  · exact refl _
  · exact ⟨rfl, rfl, fun _ found => (nomatch absent.symm.trans found), rfl⟩

end Attribute.Keeps

namespace Definition

/-- All that `original` declares is still declared, under the same name. Its bindings are those that
the stages make of them. -/
structure Retains (definition original : Definition) : Prop where
  name : definition.name = original.name
  interfaces : original.interfaces.map Interface.withoutTyped ⊆
    definition.interfaces.map Interface.withoutTyped
  internalInterfaces : original.internalInterfaces.map Interface.withoutTyped ⊆
    definition.internalInterfaces.map Interface.withoutTyped
  attributes : ∀ declared ∈ original.attributes, ∃ kept ∈ definition.attributes,
    kept.Keeps declared
  components : original.components.map Component.declared ⊆
    definition.components.map Component.declared
  bindings : Binding.Reworks original.bindings definition.bindings
  sources : original.sources.map Source.declared ⊆ definition.sources.map Source.declared
  annotations : original.annotations.nodes ⊆ definition.annotations.nodes

variable {original middle changed : Definition}

namespace Retains

theorem refl (definition : Definition) : definition.Retains definition where
  name := rfl
  interfaces := List.Subset.refl _
  internalInterfaces := List.Subset.refl _
  attributes declared member := ⟨declared, member, .refl declared⟩
  components := List.Subset.refl _
  bindings := .refl
  sources := List.Subset.refl _
  annotations := List.Subset.refl _

theorem trans (later : changed.Retains middle) (first : middle.Retains original) :
    changed.Retains original where
  name := later.name.trans first.name
  interfaces := List.Subset.trans first.interfaces later.interfaces
  internalInterfaces := List.Subset.trans first.internalInterfaces later.internalInterfaces
  attributes declared member := by
    obtain ⟨between, among, keepsFirst⟩ := first.attributes declared member
    obtain ⟨kept, stays, keepsLater⟩ := later.attributes between among
    exact ⟨kept, stays, keepsLater.trans keepsFirst⟩
  components := List.Subset.trans first.components later.components
  bindings := first.bindings.trans later.bindings
  sources := List.Subset.trans first.sources later.sources
  annotations := List.Subset.trans first.annotations later.annotations

/-- What is said of attributes by their text alone is kept if the text is. -/
theorem attributes_modify {index : Nat} {change : Attribute → Attribute}
    (keeps : ∀ declared, (change declared).Keeps declared) (declared : Attribute)
    (member : declared ∈ original.attributes) :
    ∃ kept ∈ original.attributes.modify index change, kept.Keeps declared := by
  obtain ⟨position, found⟩ := List.mem_iff_getElem?.mp member
  refine ⟨if index = position then change declared else declared,
    List.mem_iff_getElem?.mpr ⟨position, ?_⟩, ?_⟩
  · rw [List.getElem?_modify, found]
    split <;> rfl
  · split
    · exact keeps declared
    · exact .refl declared

end Retains

/-- Annotations that are built anew stand in the text as before. -/
theorem retains_rebuilt (definition : Definition) (path : NodePath) :
    (definition.modifyAnnotationsAt path (Annotations.rebuilt path.target)).Retains definition := by
  have same := Retains.refl definition
  match path with
  | .definition => exact { same with }
  | .interface _ => exact { same with interfaces := subset_map_modify _ _ fun _ => rfl }
  | .internalInterface _ =>
      exact { same with internalInterfaces := subset_map_modify _ _ fun _ => rfl }
  | .attribute _ =>
      have keeps (declared : Attribute) : Attribute.Keeps
          { declared with annotations := declared.annotations.rebuilt .attribute } declared :=
        ⟨rfl, rfl, fun _ => id, rfl⟩
      exact { same with attributes := Retains.attributes_modify keeps }
  | .component _ => exact { same with components := subset_map_modify _ _ fun _ => rfl }
  | .binding index =>
      exact { same with
        bindings := .single (Binding.rework_modify definition.bindings index fun _ =>
          ⟨rfl, rfl, rfl, rfl⟩) }
  | .source _ => exact { same with sources := subset_map_modify _ _ fun _ => rfl }

theorem Edit.retains (edit : Edit original changed) : changed.Retains original := by
  have same := Retains.refl original
  cases edit with
  | annotated path => exact retains_rebuilt original path
  | attached =>
      exact { same with annotations := List.subset_append_left _ _ }
  | exposed => exact { same with interfaces := subset_map_append _ _ }
  | flagged => exact { same with components := subset_map_modify _ _ fun _ => rfl }
  | delegated => exact { same with internalInterfaces := subset_map_append _ _ }
  | ordered perm => exact { same with interfaces := (perm.map _).symm.subset }
  | settled settles =>
      refine { same with attributes := fun declared member => ?_ }
      obtain ⟨kept, stays, settles⟩ := exists_right_of_forall₂ settles declared member
      exact ⟨kept, stays, .of_settles settles⟩
  | forwarded parameter _ _ =>
      refine { same with components := subset_map_modify _ _ fun component => ?_ }
      simp [Component.declared, forwardArgument]
  | rebound _ rework => exact { same with bindings := .single rework }
  | described | controlled | parameterized => exact { same with }

theorem Edits.retains (edits : original.Edits changed) : changed.Retains original := by
  induction edits with
  | refl => exact .refl _
  | tail _ edit induction => exact edit.retains.trans induction

theorem nodes_subset_union (left right : Annotations) : left.nodes ⊆ (left.union right).nodes :=
  (addNew.isPrefix AnnotationNode.typeName left.nodes right.nodes).subset

/-- A child keeps its own elements whatever it takes over. -/
theorem retains_merged (child parent : Definition) :
    (Inheritance.merged child parent).Retains child where
  name := rfl
  interfaces := List.map_subset _ (List.subset_append_right _ _)
  internalInterfaces := List.map_subset _ (List.subset_append_right _ _)
  attributes declared member := ⟨declared, List.mem_append_right _ member, .refl declared⟩
  components := List.map_subset _ (List.subset_append_right _ _)
  bindings := .single (.inherited _ child.bindings)
  sources := List.map_subset _ (List.subset_append_right _ _)
  annotations := nodes_subset_union _ _

end Definition

end Adl
