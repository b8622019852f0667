import Adl.Definition.NodePath
import Mathlib.Data.List.Nodup

namespace Adl.Definition

/-! The elements of a definition that bear annotations: the definition itself, its interfaces,
attributes, sub-components, bindings and sources. Positions name them one by one; what holds of
all of them is told list by list. -/

/-- What holds of the annotations of every element, given what they are attached to. -/
structure Everywhere (Holds : Target → Annotations → Prop) (definition : Definition) : Prop where
  own : Holds .definition definition.annotations
  interfaces : ∀ interface ∈ definition.interfaces, Holds .interface interface.annotations
  internalInterfaces : ∀ interface ∈ definition.internalInterfaces,
    Holds .interface interface.annotations
  attributes : ∀ declared ∈ definition.attributes, Holds .attribute declared.annotations
  components : ∀ component ∈ definition.components, Holds .component component.annotations
  bindings : ∀ binding ∈ definition.bindings, Holds .binding binding.annotations
  sources : ∀ source ∈ definition.sources, Holds .source source.annotations

instance (Holds : Target → Annotations → Prop)
    [∀ target annotations, Decidable (Holds target annotations)] (definition : Definition) :
    Decidable (definition.Everywhere Holds) :=
  decidable_of_iff (Holds .definition definition.annotations ∧
      (∀ interface ∈ definition.interfaces, Holds .interface interface.annotations) ∧
      (∀ interface ∈ definition.internalInterfaces, Holds .interface interface.annotations) ∧
      (∀ declared ∈ definition.attributes, Holds .attribute declared.annotations) ∧
      (∀ component ∈ definition.components, Holds .component component.annotations) ∧
      (∀ binding ∈ definition.bindings, Holds .binding binding.annotations) ∧
      ∀ source ∈ definition.sources, Holds .source source.annotations)
    ⟨fun ⟨own, interfaces, internalInterfaces, attributes, components, bindings, sources⟩ =>
      ⟨own, interfaces, internalInterfaces, attributes, components, bindings, sources⟩,
    fun everywhere => ⟨everywhere.own, everywhere.interfaces, everywhere.internalInterfaces,
      everywhere.attributes, everywhere.components, everywhere.bindings, everywhere.sources⟩⟩

/-- Changes the annotations of all elements. -/
def mapAnnotations (definition : Definition) (change : Target → Annotations → Annotations) :
    Definition :=
  { definition with
    annotations := change .definition definition.annotations
    interfaces := definition.interfaces.map fun interface =>
      { interface with annotations := change .interface interface.annotations }
    internalInterfaces := definition.internalInterfaces.map fun interface =>
      { interface with annotations := change .interface interface.annotations }
    attributes := definition.attributes.map fun declared =>
      { declared with annotations := change .attribute declared.annotations }
    components := definition.components.map fun component =>
      { component with annotations := change .component component.annotations }
    bindings := definition.bindings.map fun binding =>
      { binding with annotations := change .binding binding.annotations }
    sources := definition.sources.map fun source =>
      { source with annotations := change .source source.annotations } }

namespace Everywhere

variable {Holds Other : Target → Annotations → Prop} {definition : Definition}

theorem mono (everywhere : definition.Everywhere Holds)
    (implies : ∀ target annotations, Holds target annotations → Other target annotations) :
    definition.Everywhere Other where
  own := implies _ _ everywhere.own
  interfaces item member := implies _ _ (everywhere.interfaces item member)
  internalInterfaces item member := implies _ _ (everywhere.internalInterfaces item member)
  attributes item member := implies _ _ (everywhere.attributes item member)
  components item member := implies _ _ (everywhere.components item member)
  bindings item member := implies _ _ (everywhere.bindings item member)
  sources item member := implies _ _ (everywhere.sources item member)

theorem and (left : definition.Everywhere Holds) (right : definition.Everywhere Other) :
    definition.Everywhere fun target annotations =>
      Holds target annotations ∧ Other target annotations where
  own := ⟨left.own, right.own⟩
  interfaces item member := ⟨left.interfaces item member, right.interfaces item member⟩
  internalInterfaces item member :=
    ⟨left.internalInterfaces item member, right.internalInterfaces item member⟩
  attributes item member := ⟨left.attributes item member, right.attributes item member⟩
  components item member := ⟨left.components item member, right.components item member⟩
  bindings item member := ⟨left.bindings item member, right.bindings item member⟩
  sources item member := ⟨left.sources item member, right.sources item member⟩

theorem mapAnnotations {change : Target → Annotations → Annotations}
    (everywhere : definition.Everywhere fun target annotations =>
      Holds target (change target annotations)) :
    (definition.mapAnnotations change).Everywhere Holds where
  own := everywhere.own
  interfaces := List.forall_mem_map.mpr everywhere.interfaces
  internalInterfaces := List.forall_mem_map.mpr everywhere.internalInterfaces
  attributes := List.forall_mem_map.mpr everywhere.attributes
  components := List.forall_mem_map.mpr everywhere.components
  bindings := List.forall_mem_map.mpr everywhere.bindings
  sources := List.forall_mem_map.mpr everywhere.sources

/-- Changes that leave alone all annotations that there are. -/
theorem mapAnnotations_eq {change : Target → Annotations → Annotations}
    (everywhere : definition.Everywhere fun target annotations =>
      change target annotations = annotations) :
    definition.mapAnnotations change = definition := by
  have same : ∀ {α : Type} {items : List α} {write : α → α},
      (∀ item ∈ items, write item = item) → items.map write = items :=
    fun holds => (List.map_congr_left holds).trans (List.map_id _)
  unfold Definition.mapAnnotations
  rw [everywhere.own]
  congr 1
  · exact same fun item member => by rw [everywhere.interfaces item member]
  · exact same fun item member => by
      rw [everywhere.internalInterfaces item member]
  · exact same fun item member => by rw [everywhere.attributes item member]
  · exact same fun item member => by rw [everywhere.components item member]
  · exact same fun item member => by rw [everywhere.bindings item member]
  · exact same fun item member => by rw [everywhere.sources item member]

end Everywhere

/-! ## Positions -/

section Positions

variable {definition : Definition} {path : NodePath} {change : Annotations → Annotations}

theorem annotationsAt?_modifyAnnotationsAt (definition : Definition) (path other : NodePath)
    (change : Annotations → Annotations) :
    (definition.modifyAnnotationsAt path change).annotationsAt? other =
      if path = other then (definition.annotationsAt? other).map change
      else definition.annotationsAt? other := by
  cases path <;> cases other <;>
    simp [annotationsAt?, modifyAnnotationsAt, List.getElem?_modify, Option.map_map] <;>
    (split <;> simp_all [Function.comp_def])

theorem modify_eq_of_forall {α : Type} {items : List α} {index : Nat} {first second : α → α}
    (same : ∀ item, items[index]? = some item → first item = second item) :
    items.modify index first = items.modify index second := by
  refine List.ext_getElem? fun position => ?_
  rw [List.getElem?_modify, List.getElem?_modify]
  cases found : items[position]? with
  | none => rfl
  | some item =>
      by_cases equal : index = position
      · cases equal
        simp [same item found]
      · simp [equal]

/-- Only the annotations that are there are changed. -/
theorem modifyAnnotationsAt_congr {first second : Annotations → Annotations}
    (same : ∀ annotations, definition.annotationsAt? path = some annotations →
      first annotations = second annotations) :
    definition.modifyAnnotationsAt path first = definition.modifyAnnotationsAt path second := by
  cases path
  case definition => simp only [modifyAnnotationsAt, same _ rfl]
  all_goals
    simp only [modifyAnnotationsAt, Definition.mk.injEq, true_and, and_true]
    refine modify_eq_of_forall fun item found => ?_
    rw [same item.annotations (by simp [annotationsAt?, found])]

theorem modify_eq_self_of_forall {α : Type} {items : List α} {index : Nat} {change : α → α}
    (same : ∀ item, items[index]? = some item → change item = item) :
    items.modify index change = items :=
  (modify_eq_of_forall same).trans (List.modify_id index items)

/-- What leaves the annotations that are there as they are changes nothing. -/
theorem modifyAnnotationsAt_of_same (same : ∀ annotations,
      definition.annotationsAt? path = some annotations → change annotations = annotations) :
    definition.modifyAnnotationsAt path change = definition := by
  cases path
  case definition => simp only [modifyAnnotationsAt, same _ rfl]
  all_goals
    rw [modifyAnnotationsAt, modify_eq_self_of_forall]
    intro item found
    rw [same item.annotations (by simp [annotationsAt?, found])]

/-- Where there is no element nothing is changed. -/
theorem modifyAnnotationsAt_of_none (absent : definition.annotationsAt? path = none) :
    definition.modifyAnnotationsAt path change = definition :=
  modifyAnnotationsAt_of_same fun _ found => nomatch absent.symm.trans found

theorem foldl_modify_range {α : Type} (items : List α) (change : α → α) :
    (List.range items.length).foldl (fun items index => items.modify index change) items =
      items.map change := by
  have shifted : ∀ (indices : List Nat) (first : α) (rest : List α),
      (indices.map Nat.succ).foldl (fun items index => items.modify index change) (first :: rest) =
        first :: indices.foldl (fun items index => items.modify index change) rest := by
    intro indices
    induction indices with
    | nil => exact fun _ _ => rfl
    | cons index _ induction => exact fun first rest => induction first (rest.modify index change)
  induction items with
  | nil => rfl
  | cons item rest induction =>
      rw [List.length_cons, List.range_succ_eq_map, List.foldl_cons, List.modify_zero_cons, shifted,
        induction, List.map_cons]

/-- Changing the annotations at all positions is changing all annotations. -/
theorem foldl_modifyAnnotationsAt (definition : Definition)
    (change : Target → Annotations → Annotations) :
    definition.nodePaths.foldl
        (fun changed path => changed.modifyAnnotationsAt path (change path.target)) definition =
      definition.mapAnnotations change := by
  have onField : ∀ {α : Type} (position : Nat → NodePath) (items : List α)
      (set : List α → Definition) (write : α → α) (rest : List NodePath),
      (∀ index items, (set items).modifyAnnotationsAt (position index)
        (change (position index).target) = set (items.modify index write)) →
      ((List.range items.length).map position ++ rest).foldl
        (fun changed path => changed.modifyAnnotationsAt path (change path.target)) (set items) =
        rest.foldl (fun changed path => changed.modifyAnnotationsAt path (change path.target))
          (set (items.map write)) := by
    intro α position items set write rest step
    rw [← foldl_modify_range items write, List.foldl_append]
    generalize List.range items.length = indices
    congr 1
    induction indices generalizing items with
    | nil => rfl
    | cons index rest induction => rw [List.map_cons, List.foldl_cons, step, induction]; rfl
  simp only [nodePaths, List.cons_append, List.append_assoc, List.foldl_cons]
  refine (onField .interface definition.interfaces
    (fun interfaces => { definition.mapAnnotations change with
      interfaces
      internalInterfaces := definition.internalInterfaces
      attributes := definition.attributes
      components := definition.components
      bindings := definition.bindings
      sources := definition.sources })
    (fun interface => { interface with annotations := change .interface interface.annotations })
    _ fun _ _ => rfl).trans ?_
  refine (onField .internalInterface definition.internalInterfaces
    (fun internalInterfaces => { definition.mapAnnotations change with
      internalInterfaces
      attributes := definition.attributes
      components := definition.components
      bindings := definition.bindings
      sources := definition.sources })
    (fun interface => { interface with annotations := change .interface interface.annotations })
    _ fun _ _ => rfl).trans ?_
  refine (onField .attribute definition.attributes
    (fun attributes => { definition.mapAnnotations change with
      attributes
      components := definition.components
      bindings := definition.bindings
      sources := definition.sources })
    (fun declared => { declared with annotations := change .attribute declared.annotations })
    _ fun _ _ => rfl).trans ?_
  refine (onField .component definition.components
    (fun components => { definition.mapAnnotations change with
      components
      bindings := definition.bindings
      sources := definition.sources })
    (fun component => { component with annotations := change .component component.annotations })
    _ fun _ _ => rfl).trans ?_
  refine (onField .binding definition.bindings
    (fun bindings => { definition.mapAnnotations change with
      bindings
      sources := definition.sources })
    (fun binding => { binding with annotations := change .binding binding.annotations })
    _ fun _ _ => rfl).trans ?_
  rw [← List.append_nil ((List.range definition.sources.length).map NodePath.source)]
  exact onField .source definition.sources
    (fun sources => { definition.mapAnnotations change with sources })
    (fun source => { source with annotations := change .source source.annotations })
    [] fun _ _ => rfl

theorem annotationsAt?_mapAnnotations (definition : Definition) (path : NodePath)
    (change : Target → Annotations → Annotations) :
    (definition.mapAnnotations change).annotationsAt? path =
      (definition.annotationsAt? path).map (change path.target) := by
  cases path <;>
    simp [annotationsAt?, Definition.mapAnnotations, NodePath.target, Function.comp_def]

/-- The positions are those of the elements that there are. -/
theorem mem_nodePaths_iff :
    path ∈ definition.nodePaths ↔ (definition.annotationsAt? path).isSome = true := by
  cases path <;> simp [nodePaths, annotationsAt?]

/-- No element has two positions. -/
theorem nodup_nodePaths (definition : Definition) : definition.nodePaths.Nodup := by
  have field {position : Nat → NodePath} (apart : Function.Injective position) (count : Nat) :
      ((List.range count).map position).Nodup :=
    List.Nodup.map apart List.nodup_range
  simp only [nodePaths, List.cons_append, List.append_assoc, List.nodup_cons, List.nodup_append,
    field fun _ _ => NodePath.interface.inj, field fun _ _ => NodePath.internalInterface.inj,
    field fun _ _ => NodePath.attribute.inj, field fun _ _ => NodePath.component.inj,
    field fun _ _ => NodePath.binding.inj, field fun _ _ => NodePath.source.inj]
  simp [or_imp, forall_and]

/-- What holds everywhere holds at each position. -/
theorem Everywhere.at {Holds : Target → Annotations → Prop} (everywhere : definition.Everywhere Holds)
    {annotations : Annotations} (found : definition.annotationsAt? path = some annotations) :
    Holds path.target annotations := by
  have element : ∀ {α : Type} {items : List α} {read : α → Annotations} {index : Nat}
      {target : Target}, items[index]?.map read = some annotations →
      (∀ item ∈ items, Holds target (read item)) → Holds target annotations := by
    intro α items read index target found holds
    obtain ⟨item, among, rfl⟩ := Option.map_eq_some_iff.mp found
    exact holds item (List.mem_of_getElem? among)
  match path with
  | .definition => exact Option.some.inj found ▸ everywhere.own
  | .interface _ => exact element found everywhere.interfaces
  | .internalInterface _ => exact element found everywhere.internalInterfaces
  | .attribute _ => exact element found everywhere.attributes
  | .component _ => exact element found everywhere.components
  | .binding _ => exact element found everywhere.bindings
  | .source _ => exact element found everywhere.sources

/-- What holds at all positions holds everywhere. -/
theorem everywhere_iff {Holds : Target → Annotations → Prop} :
    definition.Everywhere Holds ↔ ∀ path ∈ definition.nodePaths, ∀ annotations,
      definition.annotationsAt? path = some annotations → Holds path.target annotations := by
  constructor
  · exact fun everywhere path _ annotations found => everywhere.at found
  · intro all
    have element : ∀ (position : Nat → NodePath) {α : Type} {items : List α}
        {read : α → Annotations} {target : Target},
        (∀ index, (position index).target = target) →
        (∀ index < items.length, position index ∈ definition.nodePaths) →
        (∀ index, definition.annotationsAt? (position index) = items[index]?.map read) →
        ∀ item ∈ items, Holds target (read item) := by
      intro position α items read target targets listed reads item member
      obtain ⟨index, within, rfl⟩ := List.getElem_of_mem member
      rw [← targets index]
      refine all _ (listed index within) _ ?_
      rw [reads, List.getElem?_eq_getElem within, Option.map_some]
    refine ⟨all .definition (by simp [nodePaths]) _ rfl, ?_, ?_, ?_, ?_, ?_, ?_⟩
    · exact element .interface (fun _ => rfl) (by simp [nodePaths]) fun _ => rfl
    · exact element .internalInterface (fun _ => rfl) (by simp [nodePaths]) fun _ => rfl
    · exact element .attribute (fun _ => rfl) (by simp [nodePaths]) fun _ => rfl
    · exact element .component (fun _ => rfl) (by simp [nodePaths]) fun _ => rfl
    · exact element .binding (fun _ => rfl) (by simp [nodePaths]) fun _ => rfl
    · exact element .source (fun _ => rfl) (by simp [nodePaths]) fun _ => rfl

end Positions

end Adl.Definition
