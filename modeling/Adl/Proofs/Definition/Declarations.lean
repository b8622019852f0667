import Adl.Proofs.Annotation.Ordinary
import Mathlib.Data.Set.Operations

namespace Adl

/-! What definitions declare, and what a merge makes of it. Inherited declarations come beside
the child's own. As long as the key of a declaration tells which one it is, all declarations of
both sides are there after the merge, each once, and nothing is wrong with it. -/

/-- A declaration, as far as a merge looks at it. -/
inductive Declaration where
  | interface (interface : Interface)
  | attribute (name typeName : String)
  | component (name : String)
  | source (path : String)
deriving DecidableEq

namespace Declaration

def name : Declaration → String
  | .interface declared => declared.name
  | .attribute name _ => name
  | .component name => name
  | .source path => path

def target : Declaration → Target
  | .interface _ => .interface
  | .attribute _ _ => .attribute
  | .component _ => .component
  | .source _ => .source

/-- One definition has one element for a key. -/
def key (declaration : Declaration) : Target × String :=
  (declaration.target, declaration.name)

/-- A control interface, which annotations add. -/
def IsControl (declaration : Declaration) : Prop :=
  ∃ control ∈ Membrane.controlInterfaces, declaration = .interface control

/-- The key of a control interface tells all of it. -/
theorem IsControl.eq {left right : Declaration} (leftControl : left.IsControl)
    (rightControl : right.IsControl) (same : left.key = right.key) : left = right := by
  obtain ⟨control, among, rfl⟩ := leftControl
  obtain ⟨other, also, rfl⟩ := rightControl
  exact congrArg _ (Membrane.controlInterfaces_apart control among other also (congrArg Prod.snd same))

end Declaration

namespace Definition

/-- The interfaces, attributes, sub-components and sources. -/
def declarations (definition : Definition) : List Declaration :=
  definition.interfaces.map (fun interface => .interface interface.withoutTyped) ++
    definition.attributes.map (fun declared => .attribute declared.name declared.typeName) ++
    definition.components.map (fun component => .component component.name) ++
    definition.sources.map (fun source => .source source.path)

def declaredKeys (definition : Definition) : List (Target × String) :=
  definition.declarations.map Declaration.key

variable {definition original changed child parent : Definition}

theorem mem_declarations {declaration : Declaration} :
    declaration ∈ definition.declarations ↔
      (∃ interface ∈ definition.interfaces, .interface interface.withoutTyped = declaration) ∨
      (∃ declared ∈ definition.attributes,
        .attribute declared.name declared.typeName = declaration) ∨
      (∃ component ∈ definition.components, .component component.name = declaration) ∨
      ∃ source ∈ definition.sources, .source source.path = declaration := by
  simp only [declarations, List.mem_append, List.mem_map, or_assoc]

theorem declarations_congr
    (interfaces : changed.interfaces.map Interface.withoutTyped =
      original.interfaces.map Interface.withoutTyped)
    (attributes : changed.attributes.map (fun declared => (declared.name, declared.typeName)) =
      original.attributes.map fun declared => (declared.name, declared.typeName))
    (components : changed.components.map (·.name) = original.components.map (·.name))
    (sources : changed.sources.map (·.path) = original.sources.map (·.path)) :
    changed.declarations = original.declarations := by
  have first := congrArg (List.map Declaration.interface) interfaces
  have second := congrArg (List.map fun pair => Declaration.attribute pair.1 pair.2) attributes
  have third := congrArg (List.map Declaration.component) components
  have fourth := congrArg (List.map Declaration.source) sources
  simp only [List.map_map] at first second third fourth
  exact congrArg₂ _ (congrArg₂ _ (congrArg₂ _ first second) third) fourth

/-! ## Edits -/

/-- Edits declare nothing, but for control interfaces with new names. -/
theorem Edit.declares (edit : Edit original changed) :
    changed.declarations.Perm original.declarations ∨
      ∃ control ∈ Membrane.controlInterfaces, original.interface? control.name = none ∧
        changed.declarations.Perm (.interface control :: original.declarations) := by
  cases edit with
  | annotated path =>
      refine .inl (.of_eq ?_)
      match path with
      | .interface _ => exact declarations_congr (map_modify _ _ fun _ _ => rfl) rfl rfl rfl
      | .attribute _ => exact declarations_congr rfl (map_modify _ _ fun _ _ => rfl) rfl rfl
      | .component _ => exact declarations_congr rfl rfl (map_modify _ _ fun _ _ => rfl) rfl
      | .source _ => exact declarations_congr rfl rfl rfl (map_modify _ _ fun _ _ => rfl)
      | .definition | .internalInterface _ | .binding _ => rfl
  | exposed role signature unknown known =>
      refine .inr ⟨_, known, unknown, ?_⟩
      simp only [declarations, List.map_append, List.append_assoc]
      exact List.perm_middle
  | flagged | forwarded =>
      exact .inl (.of_eq (declarations_congr rfl rfl (map_modify _ _ fun _ _ => rfl) rfl))
  | ordered perm =>
      exact .inl ((((perm.map _).append_right _).append_right _).append_right _)
  | settled settles =>
      refine .inl (.of_eq (declarations_congr rfl ?_ rfl rfl))
      generalize original.attributes = declared at settles
      induction settles with
      | nil => rfl
      | cons first _ induction =>
          rcases first with rfl | ⟨-, _, -, rfl⟩
          · rw [List.map_cons, List.map_cons, induction]
          · rw [List.map_cons, List.map_cons, induction]
  | attached | described | controlled | delegated | rebound | parameterized => exact .inl (.refl _)

theorem Edit.subset_declarations (edit : Edit original changed) :
    original.declarations ⊆ changed.declarations := by
  rcases edit.declares with perm | ⟨control, -, -, perm⟩
  · exact perm.symm.subset
  · exact List.Subset.trans (List.subset_cons_self _ _) perm.symm.subset

theorem Edit.mem_declarations (edit : Edit original changed) {declaration : Declaration}
    (member : declaration ∈ changed.declarations) :
    declaration ∈ original.declarations ∨ declaration.IsControl := by
  rcases edit.declares with perm | ⟨control, known, -, perm⟩
  · exact .inl (perm.subset member)
  · rcases List.mem_cons.mp (perm.subset member) with rfl | old
    · exact .inr ⟨control, known, rfl⟩
    · exact .inl old

/-- What is declared once is declared once after an edit. -/
theorem Edit.nodup (edit : Edit original changed) (once : original.declaredKeys.Nodup) :
    changed.declaredKeys.Nodup := by
  rcases edit.declares with perm | ⟨control, -, unknown, perm⟩
  · exact (perm.map _).nodup_iff.mpr once
  · refine (perm.map _).nodup_iff.mpr (List.nodup_cons.mpr ⟨fun known => ?_, once⟩)
    obtain ⟨declaration, member, same⟩ := List.mem_map.mp known
    rcases Definition.mem_declarations.mp member with ⟨interface, among, rfl⟩ | ⟨_, _, rfl⟩ |
      ⟨_, _, rfl⟩ | ⟨_, _, rfl⟩
    · exact List.find?_eq_none.mp unknown interface among
        (beq_iff_eq.mpr (congrArg Prod.snd same))
    · exact nomatch congrArg Prod.fst same
    · exact nomatch congrArg Prod.fst same
    · exact nomatch congrArg Prod.fst same

/-! ## Copies and instances -/

theorem declarations_substitute (definition : Definition) (name : String)
    (bindings : ValueBindings) :
    (definition.substitute name bindings).declarations = definition.declarations := by
  refine declarations_congr rfl ?_ ?_ rfl
  · simp only [substitute, List.map_map]
    rfl
  · simp only [substitute, List.map_map]
    exact List.map_congr_left fun component _ => component.name_substitute bindings

theorem declarations_bare (request : InstanceRequest) (context : Context) (name : String) :
    (request.bare context name).declarations =
      (context.definition request.generic).declarations := by
  refine declarations_congr rfl rfl ?_ rfl
  simp only [InstanceRequest.bare, List.map_map]
  exact List.map_congr_left fun _ _ => Component.name_instantiate

/-! ## Merges -/

theorem mem_declaredKeys {key : Target × String} :
    key ∈ definition.declaredKeys ↔ ∃ declaration ∈ definition.declarations, declaration.key = key :=
  List.mem_map

/-! The keys of one kind are the names of its elements. -/

theorem interface_mem_declaredKeys {name : String} :
    (Target.interface, name) ∈ definition.declaredKeys ↔
      ∃ interface ∈ definition.interfaces, interface.name = name := by
  simp [declaredKeys, declarations, Declaration.key, Declaration.target, Declaration.name,
    Interface.withoutTyped]

theorem attribute_mem_declaredKeys {name : String} :
    (Target.attribute, name) ∈ definition.declaredKeys ↔
      ∃ declared ∈ definition.attributes, declared.name = name := by
  simp [declaredKeys, declarations, Declaration.key, Declaration.target, Declaration.name]

theorem component_mem_declaredKeys {name : String} :
    (Target.component, name) ∈ definition.declaredKeys ↔
      ∃ component ∈ definition.components, component.name = name := by
  simp [declaredKeys, declarations, Declaration.key, Declaration.target, Declaration.name]

theorem source_mem_declaredKeys {path : String} :
    (Target.source, path) ∈ definition.declaredKeys ↔
      ∃ source ∈ definition.sources, source.path = path := by
  simp [declaredKeys, declarations, Declaration.key, Declaration.target, Declaration.name]

/-- What a parent declares is there after a merge unless the child has its key. -/
theorem declarations_merged (child parent : Definition) :
    (Inheritance.merged child parent).declarations.Perm
      ((parent.declarations.filter fun inherited => inherited.key ∉ child.declaredKeys) ++
        child.declarations) := by
  have interfaces : ∀ inherited : Interface, (child.interface? inherited.name).isNone =
      decide ((Declaration.interface inherited.withoutTyped).key ∉ child.declaredKeys) := by
    intro inherited
    change _ = decide ((Target.interface, inherited.name) ∉ child.declaredKeys)
    rw [Bool.eq_iff_iff]
    simp [interface_mem_declaredKeys, interface?]
  have attributes : ∀ inherited : Attribute, (child.attribute? inherited.name).isNone =
      decide ((Declaration.attribute inherited.name inherited.typeName).key ∉
        child.declaredKeys) := by
    intro inherited
    change _ = decide ((Target.attribute, inherited.name) ∉ child.declaredKeys)
    rw [Bool.eq_iff_iff]
    simp [attribute_mem_declaredKeys, attribute?]
  have components : ∀ inherited : Component, (child.component? inherited.name).isNone =
      decide ((Declaration.component inherited.name).key ∉ child.declaredKeys) := by
    intro inherited
    change _ = decide ((Target.component, inherited.name) ∉ child.declaredKeys)
    rw [Bool.eq_iff_iff]
    simp [component_mem_declaredKeys, component?]
  have sources : ∀ inherited : Source, (!child.sources.any (·.path == inherited.path)) =
      decide ((Declaration.source inherited.path).key ∉ child.declaredKeys) := by
    intro inherited
    change _ = decide ((Target.source, inherited.path) ∉ child.declaredKeys)
    rw [Bool.eq_iff_iff]
    simp [source_mem_declaredKeys]
  refine List.perm_iff_count.mpr fun declaration => ?_
  simp only [declarations, Inheritance.merged, interfaces, attributes, components, sources,
    List.filter_append, List.filter_map, List.map_append, List.count_append, Function.comp_def]
  omega

theorem subset_declarations_merged :
    child.declarations ⊆ (Inheritance.merged child parent).declarations :=
  List.Subset.trans (List.subset_append_right _ _) (declarations_merged child parent).symm.subset

theorem mem_of_mem_merged {declaration : Declaration}
    (member : declaration ∈ (Inheritance.merged child parent).declarations) :
    declaration ∈ child.declarations ∨ declaration ∈ parent.declarations :=
  (List.mem_append.mp ((declarations_merged child parent).subset member)).symm.imp_right
    fun inherited => (List.mem_filter.mp inherited).1

/-- What is declared once on both sides is declared once after a merge. -/
theorem nodup_merged (own : child.declaredKeys.Nodup) (handed : parent.declaredKeys.Nodup) :
    (Inheritance.merged child parent).declaredKeys.Nodup := by
  refine ((declarations_merged child parent).map _).nodup_iff.mpr ?_
  rw [List.map_append]
  refine List.nodup_append.mpr ⟨handed.sublist (List.filter_sublist.map _), own, ?_⟩
  rintro _ inherited _ declared rfl
  obtain ⟨declaration, member, rfl⟩ := List.mem_map.mp inherited
  exact of_decide_eq_true (List.mem_filter.mp member).2 declared

section Telling

variable {pool : Set Declaration} (tells : pool.InjOn Declaration.key)
  (ownPool : ∀ declaration ∈ child.declarations, declaration ∈ pool)
  (handedPool : ∀ declaration ∈ parent.declarations, declaration ∈ pool)
include tells ownPool handedPool

theorem interfaceConflicts_eq_nil : Inheritance.interfaceConflicts child parent = [] := by
  refine List.filterMap_eq_nil_iff.mpr fun inherited member => ?_
  cases found : child.interface? inherited.name with
  | none => rfl
  | some own =>
      have named : own.name = inherited.name := by simpa using List.find?_some found
      have same : Declaration.interface own.withoutTyped = .interface inherited.withoutTyped :=
        tells (ownPool _ (mem_declarations.mpr (.inl ⟨own, List.mem_of_find?_eq_some found, rfl⟩)))
          (handedPool _ (mem_declarations.mpr (.inl ⟨inherited, member, rfl⟩)))
          (congrArg (Prod.mk Target.interface) named)
      exact if_pos (beq_iff_eq.mpr (Declaration.interface.inj same))

theorem attributeConflicts_eq_nil : Inheritance.attributeConflicts child parent = [] := by
  refine List.filterMap_eq_nil_iff.mpr fun inherited member => ?_
  cases found : child.attribute? inherited.name with
  | none => rfl
  | some own =>
      have named : own.name = inherited.name := by simpa using List.find?_some found
      have same : Declaration.attribute own.name own.typeName =
          .attribute inherited.name inherited.typeName :=
        tells (ownPool _ (mem_declarations.mpr
            (.inr (.inl ⟨own, List.mem_of_find?_eq_some found, rfl⟩))))
          (handedPool _ (mem_declarations.mpr (.inr (.inl ⟨inherited, member, rfl⟩))))
          (congrArg (Prod.mk Target.attribute) named)
      exact if_pos (Declaration.attribute.inj same).2

end Telling

end Definition

/-! ## Marks -/

namespace AnnotationRegistry

/-- The kind of a predefined annotation is the name of its node, without a package. -/
theorem kind_of_build {node : AnnotationNode} {built : Annotation}
    (builds : predefined.build node = .ok built) :
    built.kind = Text.simpleName node.typeName := by
  obtain ⟨descriptor, arguments, found, made⟩ := exists_of_build builds
  have member := mem_predefinedKinds found
  have names : ∀ entry ∈ predefined.kinds.entries, entry.2.name = entry.1 := by decide +kernel
  have isName : descriptor.name = Text.simpleName node.typeName :=
    names _ (Table.mem_entries_of_find? found)
  rw [← isName]
  simp only [predefinedKinds, List.mem_cons, List.not_mem_nil, or_false] at member
  rcases member with rfl | rfl | rfl | rfl | rfl | rfl | rfl | rfl
  case inr.inr.inr.inl | inr.inr.inr.inr.inl =>
    obtain ⟨flag, rfl⟩ := exists_of_flagged made
    rfl
  all_goals
    rw [eq_of_plain made]
    rfl

end AnnotationRegistry

namespace Annotations

/-- No node asks for the mark of an element that replaces an inherited one. -/
structure IsUnmarked (annotations : Annotations) : Prop where
  typed : ∀ built ∈ annotations.typed, built.kind ≠ Annotation.overrideKind
  nodes : ∀ node ∈ annotations.nodes, Text.simpleName node.typeName ≠ Annotation.overrideKind

theorem IsUnmarked.has_eq_false {annotations : Annotations} (unmarked : annotations.IsUnmarked) :
    annotations.has Annotation.overrideKind = false := by
  refine Bool.or_eq_false_iff.mpr ⟨List.any_eq_false.mpr fun built member => ?_,
    List.any_eq_false.mpr fun node member => ?_⟩
  · simpa using unmarked.typed built member
  · have simple : Text.simpleName Annotation.overrideKind = Annotation.overrideKind := by
      decide +kernel
    refine fun named => unmarked.nodes node member ?_
    rw [beq_iff_eq.mp named, simple]

theorem survives_isUnmarked : Survives fun _ annotations => annotations.IsUnmarked where
  none _ := ⟨nofun, nofun⟩
  rebuilt target annotations unmarked := by
    refine ⟨fun built member => ?_, unmarked.nodes⟩
    obtain ⟨node, among, builds⟩ := (AnnotationRegistry.mem_accepted member).resolve_left nofun
    rw [AnnotationRegistry.kind_of_build builds]
    exact unmarked.nodes node among
  attached annotations _ unmarked := by
    refine ⟨Definition.forall_append unmarked.typed fun built member => ?_,
      Definition.forall_append unmarked.nodes fun node member => ?_⟩
    · exact List.mem_singleton.mp member ▸ by decide
    · exact List.mem_singleton.mp member ▸ by decide +kernel
  inherited annotations unmarked :=
    ⟨fun built member => unmarked.typed built (List.mem_filter.mp member).1,
      fun node member => unmarked.nodes node (List.mem_filter.mp member).1⟩
  union left right leftUnmarked rightUnmarked :=
    ⟨fun built member => (addNew.mem Annotation.kind member).elim
        (leftUnmarked.typed built) (rightUnmarked.typed built),
      fun node member => (addNew.mem AnnotationNode.typeName member).elim
        (leftUnmarked.nodes node) (rightUnmarked.nodes node)⟩

end Annotations

namespace Definition

/-- No element is marked as one that replaces an inherited one. -/
def IsUnmarked (definition : Definition) : Prop :=
  definition.Everywhere fun _ annotations => annotations.IsUnmarked

theorem isUnmarked_of_plain {definition : Definition} (untyped : definition.IsUntyped)
    (plain : AnnotationRegistry.isAnnotated definition = false) : definition.IsUnmarked := by
  have unmarked : ∀ {annotations : Annotations}, annotations.typed = [] → annotations.nodes = [] →
      annotations.IsUnmarked := by
    intro annotations typed nodes
    refine ⟨?_, ?_⟩
    · rw [typed]
      exact nofun
    · rw [nodes]
      exact nofun
  obtain ⟨own, interfaces, internalInterfaces, attributes, components, bindings, sources⟩ := untyped
  have nodes := AnnotationRegistry.everywhere_of_not_annotated plain
  exact ⟨unmarked own nodes.own,
    fun item member => unmarked (interfaces item member) (nodes.interfaces item member),
    fun item member =>
      unmarked (internalInterfaces item member) (nodes.internalInterfaces item member),
    fun item member => unmarked (attributes item member) (nodes.attributes item member),
    fun item member => unmarked (components item member) (nodes.components item member),
    fun item member => unmarked (bindings item member) (nodes.bindings item member),
    fun item member => unmarked (sources item member) (nodes.sources item member)⟩

variable {child parent : Definition} {checksMarkers : Bool}

/-- Where keys tell declarations apart, nothing is wrong with a merge into a child without marks. -/
theorem problems_eq_nil {pool : Set Declaration} (tells : pool.InjOn Declaration.key)
    (ownPool : ∀ declaration ∈ child.declarations, declaration ∈ pool)
    (handedPool : ∀ declaration ∈ parent.declarations, declaration ∈ pool)
    (unmarked : checksMarkers = true → child.IsUnmarked) :
    Inheritance.problems child parent checksMarkers = [] := by
  unfold Inheritance.problems
  rw [interfaceConflicts_eq_nil tells ownPool handedPool,
    attributeConflicts_eq_nil tells ownPool handedPool]
  cases checksMarkers with
  | false => rfl
  | true =>
      have silent : ∀ {α : Type} {items : List α} {read : α → Annotations} {absent : α → Bool}
          {complaint : α → Diagnostic}, (∀ item ∈ items, (read item).IsUnmarked) →
          (items.filter fun own => (read own).has Annotation.overrideKind && absent own).map
            complaint = [] := by
        intro α items read absent complaint unmarked
        rw [List.filter_eq_nil_iff.mpr, List.map_nil]
        intro item member
        rw [(unmarked item member).has_eq_false]
        exact Bool.false_ne_true
      have everywhere := unmarked rfl
      have interfaces : Inheritance.interfaceOverrides child parent = [] :=
        silent everywhere.interfaces
      have attributes : Inheritance.attributeOverrides child parent = [] :=
        silent everywhere.attributes
      have components : Inheritance.componentOverrides child parent = [] :=
        silent everywhere.components
      have bindings : Inheritance.bindingOverrides child parent = [] := silent everywhere.bindings
      have sources : Inheritance.sourceOverrides child parent = [] := silent everywhere.sources
      rw [interfaces, attributes, components, bindings, sources]
      rfl

end Definition

end Adl
