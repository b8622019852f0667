import Adl.Annotation.Predefined
import Adl.Definition.NodePath
import Adl.Loading.Composition
import Adl.Membrane.Completeness
import Adl.Membrane.Delegation
import Adl.Proofs.Binding.Reworking
import Adl.Proofs.Definition.Elements
import Adl.Proofs.Foundation.Additions
import Adl.Proofs.Loading.Soundness
import Adl.Proofs.Reference.Nesting

namespace Adl

/-! What loading does to one definition. Most of it are edits, which leave alone what the
sub-components designate; besides, sub-components and parents are resolved and what the
parents hand on is taken over. Whatever loading keeps of a definition is shown by cases on
these changes. -/

/-- The predefined kinds build the annotation. -/
def Annotation.IsPredefined (built : Annotation) : Prop :=
  ∃ node, AnnotationRegistry.predefined.build node = .ok built

theorem Annotation.isPredefined_singleton : Annotation.singleton.IsPredefined :=
  ⟨.ofType singletonKind, by decide +kernel⟩

theorem MemberSet.contains_union {α : Type} [Member α] (left right : MemberSet α) (item : α) :
    (left.union right).contains item = (left.contains item || right.contains item) := by
  have distributes : (left.bits ||| right.bits) &&& bit item =
      (left.bits &&& bit item) ||| (right.bits &&& bit item) := by
    refine UInt16.toBitVec_inj.mp (BitVec.eq_of_getElem_eq fun index within => ?_)
    simp only [UInt16.toBitVec_and, UInt16.toBitVec_or, BitVec.getElem_and, BitVec.getElem_or,
      Bool.and_or_distrib_right]
  rw [Bool.eq_iff_iff, Bool.or_eq_true]
  simp only [contains, union, bne_iff_ne, ne_eq, distributes, UInt16.or_eq_zero_iff, not_and_or]

/-- New capabilities make another kind of a definition only where they say what it holds. -/
theorem DefinitionKind.ofCapabilities_congr {left right : Capabilities}
    (components : left.contains .components = right.contains .components)
    (implementation : left.contains .implementation = right.contains .implementation) :
    ofCapabilities left = ofCapabilities right := by
  unfold ofCapabilities
  rw [components, implementation]

theorem DefinitionKind.ofCapabilities_union_single (capabilities : Capabilities)
    {capability : Capability} (components : capability ≠ .components)
    (implementation : capability ≠ .implementation) :
    ofCapabilities (capabilities.union (.single capability)) = ofCapabilities capabilities := by
  have others : ∀ other : Capability, other ≠ capability →
      (capabilities.union (.single capability)).contains other = capabilities.contains other := by
    intro other different
    rw [MemberSet.contains_union]
    have absent : (MemberSet.single capability).contains other = false := by
      revert different
      cases other <;> cases capability <;> decide
    rw [absent, Bool.or_false]
  exact ofCapabilities_congr (others _ components.symm) (others _ implementation.symm)

theorem MemberSet.contains_erase_of_ne (capabilities : Capabilities) {capability other : Capability}
    (different : other ≠ capability) :
    (capabilities.erase capability).contains other = capabilities.contains other := by
  have apart : ~~~(MemberSet.bit capability) &&& MemberSet.bit other = MemberSet.bit other := by
    revert different
    cases other <;> cases capability <;> decide
  rw [contains, erase, UInt16.and_assoc, apart, contains]

theorem DefinitionKind.ofCapabilities_erase (capabilities : Capabilities)
    {capability : Capability} (components : capability ≠ .components)
    (implementation : capability ≠ .implementation) :
    ofCapabilities (capabilities.erase capability) = ofCapabilities capabilities :=
  ofCapabilities_congr (MemberSet.contains_erase_of_ne _ components.symm)
    (MemberSet.contains_erase_of_ne _ implementation.symm)

namespace AnnotationRegistry

/-- What the check of some nodes comes to, after what it accepted before. -/
def accepted (registry : AnnotationRegistry) (target : Target) :
    List Annotation → List AnnotationNode → List Annotation
  | taken, [] => taken
  | taken, node :: rest =>
      match registry.build node with
      | .error _ => registry.accepted target taken rest
      | .ok built =>
          if built.targets.contains target && !taken.any (·.kind == built.kind) then
            registry.accepted target (taken ++ [built]) rest
          else
            registry.accepted target taken rest

theorem mem_accepted {registry : AnnotationRegistry} {target : Target} {taken : List Annotation}
    {nodes : List AnnotationNode} {built : Annotation}
    (member : built ∈ registry.accepted target taken nodes) :
    built ∈ taken ∨ ∃ node ∈ nodes, registry.build node = .ok built := by
  induction nodes generalizing taken with
  | nil => exact .inl member
  | cons node rest induction =>
      have later : built ∈ registry.accepted target taken rest →
          built ∈ taken ∨ ∃ node' ∈ node :: rest, registry.build node' = .ok built :=
        fun member => (induction member).imp_right fun ⟨other, among, builds⟩ =>
          ⟨other, List.mem_cons_of_mem _ among, builds⟩
      unfold accepted at member
      split at member
      · exact later member
      · rename_i made builds
        split at member
        · rcases induction member with old | ⟨other, among, builds⟩
          · rcases List.mem_append.mp old with old | new
            · exact .inl old
            · rw [List.mem_singleton.mp new]
              exact .inr ⟨node, List.mem_cons_self, builds⟩
          · exact .inr ⟨other, List.mem_cons_of_mem _ among, builds⟩
        · exact later member

end AnnotationRegistry

/-- The typed annotations of an element, built anew from its nodes. -/
def Annotations.rebuilt (target : Target) (annotations : Annotations) : Annotations :=
  { annotations with
    typed := AnnotationRegistry.predefined.accepted target [] annotations.nodes }

/-- All nodes are accepted, and where there are any the typed annotations are built from them. -/
structure Annotations.IsChecked (target : Target) (annotations : Annotations) : Prop where
  whole : (annotations.rebuilt target).typed.length = annotations.nodes.length
  built : annotations.nodes = [] ∨ annotations.rebuilt target = annotations

def Definition.IsChecked (definition : Definition) : Prop :=
  definition.Everywhere Annotations.IsChecked

theorem Annotations.isPredefined_rebuilt {target : Target} {annotations : Annotations} :
    ∀ built ∈ (annotations.rebuilt target).typed, built.IsPredefined := by
  intro built member
  obtain ⟨node, -, builds⟩ := (AnnotationRegistry.mem_accepted member).resolve_left nofun
  exact ⟨node, builds⟩

theorem mem_appendNew {item : String} (left right : List String) :
    item ∈ appendNew left right ↔ item ∈ left ∨ item ∈ right := by
  have known : item ∈ (addNew id left right).map id ↔ item ∈ left.map id ∨ item ∈ right.map id :=
    addNew.mem_keys
  rwa [← appendNew_eq, List.map_id, List.map_id, List.map_id] at known

/-- What is recorded of implementations is not taken back, nor whether parents were merged. -/
structure Decorations.Extends (later earlier : Decorations) : Prop where
  extendsMerged : later.extendsMerged = earlier.extendsMerged
  sharedImplementations : earlier.sharedImplementations ⊆ later.sharedImplementations

theorem Decorations.Extends.refl (decorations : Decorations) : decorations.Extends decorations :=
  ⟨rfl, List.Subset.refl _⟩

namespace Controller

/-- The controller passes calls through a membrane. -/
def isDelegator (controller : Controller) : Bool :=
  controller.sources.any (·.path == Membrane.delegatorSource)

/-- A delegator names on the inside what it names on the outside. -/
def PassesThrough (controller : Controller) : Prop :=
  controller.isDelegator = true → ∀ name, controller.implementsExternal name = true →
    controller.implementsInternal name = true

end Controller

/-- An attribute without a value may be given a literal. -/
def Attribute.Settles (declared settled : Attribute) : Prop :=
  settled = declared ∨ declared.value = none ∧
    ∃ value : Value, value.isLiteral = true ∧ settled = { declared with value := some value }

/-- A binding that stands for another, or for a part of it: it binds the same interfaces. -/
structure Binding.Rewrites (binding original : Binding) : Prop where
  annotations : binding.annotations = original.annotations
  client : ∃ index, binding.client = { original.client with index }
  server : ∃ index, binding.server = { original.server with index }

theorem Binding.Rewrites.refl (binding : Binding) : binding.Rewrites binding :=
  ⟨rfl, ⟨_, rfl⟩, ⟨_, rfl⟩⟩

/-- A sub-component is filled: it has a decoration. -/
def InstanceRequest.IsFilled (definition : Definition) (index : Nat) : Prop :=
  ∀ component, definition.components[index]? = some component → component.resolved.isSome = true

theorem exists_of_mem_modify {α : Type} {items : List α} {index : Nat} {change : α → α} {item : α}
    (member : item ∈ items.modify index change) :
    item ∈ items ∨ ∃ other, items[index]? = some other ∧ item = change other := by
  obtain ⟨position, found⟩ := List.mem_iff_getElem?.mp member
  rw [List.getElem?_modify] at found
  cases original : items[position]? with
  | none =>
      rw [original] at found
      exact nomatch found
  | some other =>
      rw [original] at found
      change some _ = some item at found
      cases found
      split
      · rename_i same
        exact .inr ⟨other, same ▸ original, rfl⟩
      · exact .inl (List.mem_of_getElem? original)

namespace Membrane

/-- An interface that controllers implement. -/
def control (role : Role) (name signature : String) : Interface :=
  { Interface.ofRole role name signature with isController := true }

/-- The control interfaces that annotations add. -/
def controlInterfaces : List Interface :=
  [ control .server lifeCycle.interface lifeCycle.signature,
    control .server attributeControl.interface attributeControl.signature,
    control .server bindingControl.interface bindingControl.signature,
    control .server contentControl.interface contentControl.signature,
    control .server "factory" "fractal.api.Factory",
    control .client "allocator" "memory.api.Allocator" ]

/-- The name of a control interface tells all of it. -/
theorem controlInterfaces_apart :
    ∀ left ∈ controlInterfaces, ∀ right ∈ controlInterfaces, left.name = right.name →
      left = right := by
  decide

end Membrane

namespace Definition

/-! ## Edits -/

/-- A change that leaves the name of a definition alone, and what its sub-components
designate. -/
inductive Edit : Definition → Definition → Prop
  | annotated (definition : Definition) (path : NodePath) :
      Edit definition (definition.modifyAnnotationsAt path (Annotations.rebuilt path.target))
  | attached (definition : Definition) :
      definition.annotations.has Annotation.singletonKind = false →
      Edit definition { definition with
        annotations := definition.annotations.attach (.ofType Annotation.singletonKind)
          Annotation.singleton }
  | described (definition : Definition) (span : Span) {capabilities : Capabilities}
      {decorations : Decorations} :
      (∀ capability, definition.has capability = true →
        capabilities.contains capability = true) →
      DefinitionKind.ofCapabilities capabilities = definition.kind →
      decorations.Extends definition.decorations →
      Edit definition { definition with span, capabilities, decorations }
  | exposed (definition : Definition) (role : Role) {name : String} (signature : String) :
      definition.interface? name = none →
      Membrane.control role name signature ∈ Membrane.controlInterfaces →
      Edit definition { definition with
        interfaces := definition.interfaces ++ [Membrane.control role name signature] }
  | controlled (definition : Definition) {added : List Controller} :
      (∀ controller ∈ added, controller.PassesThrough) →
      Edit definition { definition with controllers := definition.controllers ++ added }
  | flagged (definition : Definition) (index : Nat) :
      Edit definition { definition with
        components := definition.components.modify index fun component =>
          { component with hasLifeCycleController := true } }
  | delegated (definition : Definition) {external : Interface} :
      definition.internalInterface? external.name = none → external ∈ definition.interfaces →
      Edit definition { definition with
        internalInterfaces := definition.internalInterfaces ++ [external.dual] }
  | ordered (definition : Definition) {interfaces : List Interface} :
      interfaces.Perm definition.interfaces →
      (∀ name, interfaces.find? (·.name == name) = definition.interface? name) →
      Edit definition { definition with interfaces }
  | rebound (definition : Definition) {bindings : List Binding} :
      (∀ binding ∈ bindings, ∃ original ∈ definition.bindings, binding.Rewrites original) →
      Binding.Rework definition.bindings bindings → Edit definition { definition with bindings }
  | settled (definition : Definition) {attributes : List Attribute} :
      List.Forall₂ Attribute.Settles definition.attributes attributes →
      Edit definition { definition with attributes }
  | parameterized (definition : Definition) (name : String) {capabilities : Capabilities} :
      (∀ capability, definition.has capability = true →
        capabilities.contains capability = true) →
      DefinitionKind.ofCapabilities capabilities = definition.kind →
      Edit definition { definition with
        capabilities, parameters := definition.parameters ++ [⟨name, .generated⟩] }
  | forwarded (definition : Definition) (parameter : String) {index : Nat} {hoisted : String} :
      definition.hasParameter hoisted = true → InstanceRequest.IsFilled definition index →
      Edit definition { definition with
        components := definition.components.modify index (forwardArgument parameter hoisted) }

/-- Any number of edits. -/
def Edits : Definition → Definition → Prop :=
  Relation.ReflTransGen Edit

theorem map_modify {α β : Type} {read : α → β} (items : List α) (index : Nat) {change : α → α}
    (same : ∀ item, items[index]? = some item → read (change item) = read item) :
    (items.modify index change).map read = items.map read := by
  induction items generalizing index with
  | nil => cases index <;> rfl
  | cons item rest induction =>
      cases index with
      | zero => simp [List.modify_cons, same item rfl]
      | succ index => simp [induction index same]

theorem modifyAnnotationsAt_keeps (definition : Definition) (path : NodePath)
    (change : Annotations → Annotations) :
    (definition.modifyAnnotationsAt path change).Keeps definition := by
  cases path with
  | component index =>
      exact ⟨rfl, rfl, rfl, map_modify _ index fun _ _ => rfl, map_modify _ index fun _ _ => rfl⟩
  | _ => exact .of_components rfl rfl rfl rfl

theorem perm_cons_eraseP {α : Type} {test : α → Bool} {items : List α} {item : α}
    (found : items.find? test = some item) : (item :: items.eraseP test).Perm items := by
  induction items with
  | nil => exact nomatch found
  | cons first rest induction =>
      by_cases holds : test first = true
      · rw [List.find?_cons_of_pos holds] at found
        cases found
        rw [List.eraseP_cons_of_pos holds]
      · rw [List.find?_cons_of_neg holds] at found
        rw [List.eraseP_cons_of_neg holds]
        exact (List.Perm.swap first item _).trans ((induction found).cons first)

/-- No name is looked up differently where the first of one name is moved to the front. -/
theorem find?_cons_eraseP {first : String} {interfaces : List Interface} {interface : Interface}
    (found : interfaces.find? (·.name == first) = some interface) (name : String) :
    (interface :: interfaces.eraseP (·.name == first)).find? (·.name == name) =
      interfaces.find? (·.name == name) := by
  have named : interface.name = first := by simpa using List.find?_some found
  by_cases same : first = name
  · cases same
    rw [List.find?_cons_of_pos (by simpa using named), found]
  · rw [List.find?_cons_of_neg (by simpa [named] using same)]
    clear found
    induction interfaces with
    | nil => rfl
    | cons other rest induction =>
        by_cases erased : other.name = first
        · rw [List.eraseP_cons_of_pos (by simpa using erased),
            List.find?_cons_of_neg (by simpa [erased] using same)]
        · rw [List.eraseP_cons_of_neg (by simpa using erased), List.find?_cons, List.find?_cons,
            induction]

theorem link_forwardArgument (parameter hoisted : String) (component : Component) :
    (forwardArgument parameter hoisted component).link = component.link := by
  simp [forwardArgument, Component.link]

/-- A sub-component that has a decoration may be given arguments. -/
theorem outline_forwardArgument (parameter hoisted : String) {component : Component}
    (decorated : component.resolved.isSome = true) :
    (forwardArgument parameter hoisted component).outline = component.outline := by
  simp only [forwardArgument, Component.outline, decorated, if_true]

variable {original changed : Definition}

theorem Edit.keeps (edit : Edit original changed) : changed.Keeps original := by
  cases edit with
  | annotated path => exact modifyAnnotationsAt_keeps original path _
  | attached => exact .of_components rfl rfl rfl rfl
  | described _ _ _ records => exact .of_components rfl rfl records.extendsMerged rfl
  | exposed | controlled | delegated | ordered | parameterized => exact .of_components rfl rfl rfl rfl
  | flagged index =>
      exact ⟨rfl, rfl, rfl, map_modify _ index fun _ _ => rfl, map_modify _ index fun _ _ => rfl⟩
  | rebound => exact .of_components rfl rfl rfl rfl
  | settled => exact .of_components rfl rfl rfl rfl
  | @forwarded parameter index hoisted _ filled =>
      exact ⟨rfl, rfl, rfl,
        map_modify _ index fun component _ => link_forwardArgument parameter hoisted component,
        map_modify _ index fun component found =>
          outline_forwardArgument parameter hoisted (filled component found)⟩

/-- An edit resolves no parent. -/
theorem Edit.parents (edit : Edit original changed) : changed.parents = original.parents := by
  cases edit with
  | annotated path => cases path <;> rfl
  | _ => rfl

theorem Edit.imports (edit : Edit original changed) : changed.imports = original.imports := by
  cases edit with
  | annotated path => cases path <;> rfl
  | _ => rfl

/-- An edit leaves the type parameters alone, also the types to which they conform. -/
theorem Edit.typeParameters (edit : Edit original changed) :
    changed.typeParameters = original.typeParameters := by
  cases edit with
  | annotated path => cases path <;> rfl
  | _ => rfl

/-- A definition stays of its kind. -/
theorem Edit.kind (edit : Edit original changed) : changed.kind = original.kind := by
  cases edit with
  | annotated path => cases path <;> rfl
  | described _ _ sameKind => exact sameKind
  | parameterized _ _ sameKind => exact sameKind
  | _ => rfl

namespace Edits

theorem refl (definition : Definition) : Edits definition definition :=
  Relation.ReflTransGen.refl

theorem of_edit (edit : Edit original changed) : Edits original changed :=
  .single edit

theorem trans {middle : Definition} (first : Edits original middle)
    (second : Edits middle changed) : Edits original changed :=
  Relation.ReflTransGen.trans first second

theorem keeps (edits : Edits original changed) : changed.Keeps original := by
  induction edits with
  | refl => exact .refl original
  | tail _ edit induction => exact edit.keeps.trans induction

theorem typeParameters (edits : Edits original changed) :
    changed.typeParameters = original.typeParameters := by
  induction edits with
  | refl => rfl
  | tail _ edit induction => exact edit.typeParameters.trans induction

theorem imports (edits : Edits original changed) : changed.imports = original.imports := by
  induction edits with
  | refl => rfl
  | tail _ edit induction => exact edit.imports.trans induction

theorem kind (edits : Edits original changed) : changed.kind = original.kind := by
  induction edits with
  | refl => rfl
  | tail _ edit induction => exact edit.kind.trans induction

end Edits

/-! ## The edits of a membrane and of parameters -/

theorem ensureControllerInterface_edits (definition : Definition) {role : Role}
    {name signature : String}
    (known : Membrane.control role name signature ∈ Membrane.controlInterfaces) :
    definition.Edits (definition.ensureControllerInterface role name signature) := by
  unfold ensureControllerInterface
  split
  · exact .refl definition
  · rename_i unknown
    exact .of_edit (.exposed definition role signature (by simpa using unknown) known)

theorem ensureInternal_eq (definition : Definition) (name : String) :
    ∃ internalInterfaces, definition.ensureInternal name = { definition with internalInterfaces } := by
  unfold ensureInternal
  split
  · exact ⟨_, rfl⟩
  · split
    · exact ⟨_, rfl⟩
    · exact ⟨_, rfl⟩

theorem ensureInternal_edits (definition : Definition) (name : String) :
    definition.Edits (definition.ensureInternal name) := by
  unfold ensureInternal
  split
  · exact .refl definition
  · rename_i unknown
    split
    · rename_i external found
      have named : external.name = name := by simpa using List.find?_some found
      refine .of_edit (.delegated definition ?_ (List.mem_of_find?_eq_some found))
      rw [named]
      simpa using unknown
    · exact .refl definition

theorem componentInterfaceFirst_eq (definition : Definition) :
    ∃ interfaces, interfaces.Perm definition.interfaces ∧
      (∀ name, interfaces.find? (·.name == name) = definition.interface? name) ∧
      definition.componentInterfaceFirst = { definition with interfaces } := by
  unfold componentInterfaceFirst
  dsimp only
  split
  · rename_i interface found
    exact ⟨_, perm_cons_eraseP found, find?_cons_eraseP found, rfl⟩
  · exact ⟨_, .refl _, fun _ => rfl, rfl⟩

theorem componentInterfaceFirst_edits (definition : Definition) :
    definition.Edits definition.componentInterfaceFirst := by
  obtain ⟨interfaces, perm, lookups, same⟩ := definition.componentInterfaceFirst_eq
  rw [same]
  exact .of_edit (.ordered definition perm lookups)

theorem ensureParameter_edits (definition : Definition) (name : String) :
    definition.Edits (definition.ensureParameter name) := by
  unfold ensureParameter
  split
  · exact .refl definition
  · refine .of_edit (.parameterized definition name (fun capability holds => ?_)
      (DefinitionKind.ofCapabilities_union_single _ (by decide) (by decide)))
    exact (MemberSet.contains_union _ (.single _) _).trans (Bool.or_eq_true_iff.mpr (.inl holds))

theorem mergeName_self (name : String) : mergeName name name = .ok name := by
  by_cases empty : name.isEmpty = true <;> simp [mergeName, empty]

/-- A definition that has nothing else brings nothing but its capabilities. -/
theorem merge_none (decorations : Decorations) :
    decorations.merge .none = .ok decorations := by
  obtain ⟨_, _, templateOf, _, substitutedFrom, _⟩ := decorations
  cases templateOf <;> cases substitutedFrom <;>
    simp [Decorations.merge, Decorations.mergeOrigin, Decorations.none, appendNew, bind,
      Except.bind, pure, Except.pure]

/-- A new capability changes what a definition may hold, and nothing that it holds. -/
theorem upgrade_eq {definition upgraded : Definition} {capability : Capability}
    (succeeds : definition.upgrade capability = .ok upgraded) :
    ∃ span capabilities, (∀ other, definition.has other = true ∨ other = capability →
        capabilities.contains other = true) ∧
      (capability ≠ .components → capability ≠ .implementation →
        DefinitionKind.ofCapabilities capabilities = definition.kind) ∧
      upgraded = { definition with span, capabilities } := by
  unfold upgrade at succeeds
  split at succeeds
  · rename_i known
    cases succeeds
    refine ⟨_, _, fun other holds => ?_, fun _ _ => rfl, rfl⟩
    rcases holds with holds | rfl
    · exact holds
    · exact known
  · simp only [merge, bare, mergeName_self, merge_none, bind, Except.bind, pure,
      Except.pure] at succeeds
    cases succeeds
    simp only [List.append_nil, Bool.or_false]
    refine ⟨_, _, fun other holds => ?_, DefinitionKind.ofCapabilities_union_single _, rfl⟩
    rw [MemberSet.contains_union, Bool.or_eq_true]
    rcases holds with holds | rfl
    · exact .inl holds
    · exact .inr (by cases other <;> decide)

theorem upgrade_edits {definition upgraded : Definition} {capability : Capability}
    (components : capability ≠ .components) (implementation : capability ≠ .implementation)
    (succeeds : definition.upgrade capability = .ok upgraded) : definition.Edits upgraded := by
  obtain ⟨span, capabilities, grows, sameKind, rfl⟩ := upgrade_eq succeeds
  exact .of_edit (.described definition span (fun other holds => grows other (.inl holds))
    (sameKind components implementation) (.refl _))

theorem shareImplementation_edits (definition : Definition) (path : Option String) :
    definition.Edits (definition.shareImplementation path) := by
  cases path with
  | none => exact .refl definition
  | some path =>
      exact .of_edit (.described definition _ (fun _ holds => holds) rfl
        ⟨rfl, fun _ member => mem_appendNew _ _ |>.mpr (.inl member)⟩)

theorem ensureController_edits (definition : Definition) (name : String)
    {controller : Controller} (other : controller.isDelegator = false) :
    definition.Edits (definition.ensureController name controller) := by
  unfold ensureController
  split
  · exact .refl definition
  · refine .of_edit (.controlled definition fun added member delegates => ?_)
    rw [List.mem_singleton.mp member, other] at delegates
    exact nomatch delegates

/-- A control is implemented by its own source. -/
theorem addControl_edits {definition extended : Definition} {control : Membrane.Control}
    (other : control.source ≠ Membrane.delegatorSource)
    (known : Membrane.control .server control.interface control.signature ∈
      Membrane.controlInterfaces)
    (succeeds : definition.addControl control = .ok extended) : definition.Edits extended := by
  simp only [addControl, bind, Except.bind, pure, Except.pure] at succeeds
  split at succeeds
  · cases succeeds
  · rename_i withInterfaces first
    split at succeeds
    · cases succeeds
    · rename_i withControllers second
      cases succeeds
      have implements : ((Controller.ofSource control.source).external
          control.interface).isDelegator = false := by
        simpa [Controller.isDelegator, Controller.ofSource, Controller.external, Source.ofPath]
      exact (upgrade_edits (by decide) (by decide) first).trans
        ((shareImplementation_edits ..).trans ((ensureControllerInterface_edits _ known).trans
          ((upgrade_edits (by decide) (by decide) second).trans
            (ensureController_edits _ _ implements))))

theorem addCloning_edits {definition extended : Definition}
    (succeeds : definition.addCloning = .ok extended) : definition.Edits extended := by
  simp only [addCloning, bind, Except.bind, pure, Except.pure] at succeeds
  split at succeeds
  · cases succeeds
  · rename_i withInterfaces first
    split at succeeds
    · cases succeeds
    · rename_i withControllers second
      cases succeeds
      exact (upgrade_edits (by decide) (by decide) first).trans
        ((ensureControllerInterface_edits _ (by decide)).trans
          ((ensureControllerInterface_edits _ (by decide)).trans
          ((upgrade_edits (by decide) (by decide) second).trans
            (ensureController_edits _ _ (by decide)))))

theorem foldl_edits {α : Type} {step : Definition → α → Definition}
    (each : ∀ (definition : Definition) item, definition.Edits (step definition item)) (items : List α)
    (definition : Definition) : definition.Edits (items.foldl step definition) := by
  induction items generalizing definition with
  | nil => exact .refl definition
  | cons item rest induction => exact (each definition item).trans (induction _)

/-- The delegator names each interface on both sides. -/
theorem passesThrough_delegator (names : List String) : (delegator names).PassesThrough := by
  intro _ name
  have both : ∀ (names : List String) (controller : Controller),
      (controller.implementsExternal name = true → controller.implementsInternal name = true) →
      (names.foldl (fun controller name => (controller.external name).internal name)
        controller).implementsExternal name = true →
      (names.foldl (fun controller name => (controller.external name).internal name)
        controller).implementsInternal name = true := by
    intro names
    induction names with
    | nil => exact fun _ named => named
    | cons first rest induction =>
        intro controller named
        refine induction _ fun external => ?_
        simp only [Controller.implementsExternal, Controller.implementsInternal, Controller.external,
          Controller.internal, List.any_append, List.any_cons, List.any_nil, Bool.or_eq_true,
          Bool.not_false, Bool.not_true, Bool.false_and, Bool.true_and, Bool.or_false]
          at external named ⊢
        exact external.imp_left fun old => by simpa using named old
  exact both names _ nofun

/-- A composite gets internal interfaces and one controller. -/
theorem withDelegator_eq {definition changed : Definition} {names : List String}
    (succeeds : definition.withDelegator names = .ok changed) :
    ∃ span capabilities internalInterfaces, changed = { definition with
      span, capabilities, internalInterfaces
      controllers := definition.controllers ++ [delegator names] } := by
  have folded : ∀ (names : List String) (definition : Definition), ∃ internalInterfaces,
      names.foldl ensureInternal definition = { definition with internalInterfaces } := by
    intro names
    induction names with
    | nil => exact fun _ => ⟨_, rfl⟩
    | cons name rest induction =>
        intro definition
        obtain ⟨first, same⟩ := definition.ensureInternal_eq name
        obtain ⟨internalInterfaces, others⟩ := induction (definition.ensureInternal name)
        rw [same] at others
        exact ⟨internalInterfaces, (congrArg (rest.foldl ensureInternal) same).trans others⟩
  simp only [withDelegator, bind, Except.bind, pure, Except.pure] at succeeds
  split at succeeds
  · cases succeeds
  · rename_i withInterfaces first
    split at succeeds
    · cases succeeds
    · rename_i withControllers second
      cases succeeds
      obtain ⟨_, _, -, -, rfl⟩ := upgrade_eq first
      obtain ⟨span, capabilities, -, -, rfl⟩ := upgrade_eq second
      obtain ⟨internalInterfaces, same⟩ := folded names { definition with span, capabilities }
      exact ⟨span, capabilities, internalInterfaces, by rw [same]⟩

theorem withDelegator_edits {definition changed : Definition} {names : List String}
    (succeeds : definition.withDelegator names = .ok changed) : definition.Edits changed := by
  simp only [withDelegator, bind, Except.bind, pure, Except.pure] at succeeds
  split at succeeds
  · cases succeeds
  · rename_i withInterfaces first
    split at succeeds
    · cases succeeds
    · rename_i withControllers second
      cases succeeds
      have passes : ∀ controller ∈ [delegator names], controller.PassesThrough :=
        fun controller member => List.mem_singleton.mp member ▸ passesThrough_delegator names
      exact (upgrade_edits (by decide) (by decide) first).trans
        ((upgrade_edits (by decide) (by decide) second).trans
          ((foldl_edits ensureInternal_edits names withControllers).trans (.of_edit (.controlled _ passes))))

end Definition

/-! ## Changes -/

/-- A sub-component was resolved: its reference and its decoration differ, and no value was
put into the reference. -/
def Component.Resolves (component resolved : Component) : Prop :=
  ∃ form decoration, resolved = { component with definition := form, resolved := decoration } ∧
    ∀ reference, form = some reference → ∀ value ∈ reference.values,
      ∃ original, component.definition = some original ∧ value ∈ original.values

namespace Component.Resolves

variable {component draft : Component} {reference form : Reference}

theorem refl (component : Component) : component.Resolves component :=
  ⟨_, _, rfl, fun reference isDefinition _ member => ⟨reference, isDefinition, member⟩⟩

theorem decorate (resolves : component.Resolves draft) (resolved : Option Resolved) :
    component.Resolves { draft with resolved } := by
  obtain ⟨form, decoration, rfl, values⟩ := resolves
  exact ⟨form, resolved, rfl, values⟩

theorem of_values (isDefinition : component.definition = some reference)
    (values : ∀ value ∈ form.values, value ∈ reference.values) :
    component.Resolves { component with definition := some form } := by
  refine ⟨some form, component.resolved, rfl, fun other isForm value member => ?_⟩
  cases isForm
  exact ⟨reference, isDefinition, values value member⟩

end Component.Resolves

/-- What the listed definitions, which are loaded, hand on together. -/
inductive Context.HandsOn (context : Context) : List DefinitionId → Definition → Prop
  | first {id : DefinitionId} : context.Loaded id →
      HandsOn context [id] (Inheritance.inheritable (context.definition id))
  | next {ids : List DefinitionId} {id : DefinitionId} {combined : Definition} :
      HandsOn context ids combined → context.Loaded id →
      Inheritance.problems (Inheritance.inheritable (context.definition id)) combined false = [] →
      HandsOn context (ids ++ [id])
        (Inheritance.merged (Inheritance.inheritable (context.definition id)) combined)

namespace Context.HandsOn

variable {before after : Context} {ids : List DefinitionId} {inherited : Definition}

theorem lasts
    (kept : ∀ id, before.Loaded id →
      after.Loaded id ∧ after.definition id = before.definition id)
    (handsOn : before.HandsOn ids inherited) : after.HandsOn ids inherited := by
  induction handsOn with
  | first loaded =>
      obtain ⟨stays, same⟩ := kept _ loaded
      exact same ▸ .first stays
  | next _ loaded accepted induction =>
      obtain ⟨stays, same⟩ := kept _ loaded
      rw [← same] at accepted ⊢
      exact .next induction stays accepted

theorem loaded (handsOn : before.HandsOn ids inherited) : ∀ id ∈ ids, before.Loaded id := by
  induction handsOn with
  | first loaded => exact fun id member => List.mem_singleton.mp member ▸ loaded
  | next _ loaded _ induction =>
      intro id member
      rcases List.mem_append.mp member with old | new
      · exact induction id old
      · exact List.mem_singleton.mp new ▸ loaded

end Context.HandsOn

namespace Definition

/-- Some definitions are the parents that a child takes over from: its references designate
them, and those that do are all of its references where loading is `strict`. -/
structure Parented (strict : Prop) (context : Context) (child : Definition)
    (parents : List Reference) (ids : List DefinitionId) : Prop where
  designated : ∀ id ∈ ids, ∃ reference ∈ parents, reference.resolvedId? = some id
  legal : ∀ id ∈ ids,
    Inheritance.kindViolation? child.kind (context.definition id).kind = none
  whole : strict → parents.map (·.resolvedId?) = ids.map some

/-- Only the types to which type parameters conform differ. -/
def Conforms (definition changed : Definition) : Prop :=
  ∃ typeParameters : List FormalTypeParameter,
    typeParameters.map (·.name) = definition.typeParameterNames ∧
      changed = { definition with typeParameters }

theorem Conforms.refl (definition : Definition) : definition.Conforms definition :=
  ⟨_, rfl, rfl⟩

theorem Conforms.keeps {definition changed : Definition} (conforms : definition.Conforms changed) :
    changed.Keeps definition := by
  obtain ⟨typeParameters, names, rfl⟩ := conforms
  exact ⟨rfl, names, rfl, rfl, rfl⟩

/-- What a step of loading makes of a definition. -/
inductive Change (strict : Prop) (context : Context) : Definition → Definition → Prop
  | edited {definition changed : Definition} : definition.Edit changed →
      Change strict context definition changed
  | conforming (definition : Definition) {typeParameters : List FormalTypeParameter} :
      typeParameters.map (·.name) = definition.typeParameterNames →
      Change strict context definition { definition with typeParameters }
  | resolved (definition : Definition) {components : List Component} :
      List.Forall₂ Component.Resolves definition.components components →
      Change strict context definition { definition with components }
  | extended {definition : Definition} (parents : List Reference) :
      definition.decorations.extendsMerged = false →
      Change strict context definition { definition with parents }
  | merged {definition : Definition} {parents : List Reference} {ids : List DefinitionId}
      {inherited : Definition} : definition.decorations.extendsMerged = false →
      definition.Parented strict context parents ids → context.HandsOn ids inherited →
      Inheritance.problems { definition with parents } inherited true = [] →
      Change strict context definition
        (Parents.markMerged (Inheritance.merged { definition with parents } inherited))
  | marked {definition : Definition} : (strict → definition.parents = []) →
      Change strict context definition (Parents.markMerged definition)

/-- What any number of steps make of a definition. -/
def Grows (strict : Prop) (context : Context) : Definition → Definition → Prop :=
  Relation.ReflTransGen (Change strict context)

section Lasting

variable {strict : Prop} {before after : Context} {original middle changed : Definition}

theorem Change.lasts
    (kept : ∀ id, before.Loaded id →
      after.Loaded id ∧ after.definition id = before.definition id)
    (change : Change strict before original changed) : Change strict after original changed := by
  cases change with
  | edited edit => exact .edited edit
  | conforming names => exact .conforming _ names
  | resolved components => exact .resolved _ components
  | extended parents unmerged => exact .extended parents unmerged
  | merged unmerged parented handsOn accepted =>
      refine .merged unmerged ?_ (handsOn.lasts kept) accepted
      refine { parented with legal := fun id member => ?_ }
      rw [(kept id (handsOn.loaded id member)).2]
      exact parented.legal id member
  | marked orphaned => exact .marked orphaned

namespace Grows

theorem refl (context : Context) (definition : Definition) :
    Grows strict context definition definition :=
  Relation.ReflTransGen.refl

theorem of_change (change : Change strict before original changed) :
    Grows strict before original changed :=
  .single change

theorem trans (first : Grows strict before original middle)
    (second : Grows strict before middle changed) : Grows strict before original changed :=
  Relation.ReflTransGen.trans first second

theorem of_conforms (conforms : original.Conforms changed) :
    Grows strict before original changed := by
  obtain ⟨typeParameters, names, rfl⟩ := conforms
  exact of_change (.conforming original names)

theorem of_edits (edits : Edits original changed) : Grows strict before original changed :=
  Relation.ReflTransGen.mono (fun _ _ edit => Change.edited edit) _ _ edits

/-- What a definition became stays that while what is loaded does. -/
theorem lasts
    (kept : ∀ id, before.Loaded id →
      after.Loaded id ∧ after.definition id = before.definition id)
    (grows : Grows strict before original changed) : Grows strict after original changed :=
  Relation.ReflTransGen.mono (fun _ _ change => Change.lasts kept change) _ _ grows

end Grows

/-- No step changes the names of the type parameters. -/
theorem Grows.typeParameterNames {context : Context}
    (grows : Grows strict context original changed) :
    changed.typeParameterNames = original.typeParameterNames := by
  induction grows with
  | refl => rfl
  | tail _ change induction =>
      refine Eq.trans ?_ induction
      cases change with
      | edited edit => exact edit.keeps.typeParameters
      | conforming names => exact names
      | resolved | extended | marked | merged => rfl

end Lasting

/-! ## Names of sub-components -/

/-- The sub-components bear different names. -/
def NamesApart (definition : Definition) : Prop :=
  (definition.components.map (·.name)).Nodup

namespace NamesApart

variable {original changed : Definition}

theorem of_names (apart : original.NamesApart)
    (names : changed.components.map (·.name) = original.components.map (·.name)) :
    changed.NamesApart :=
  (congrArg List.Nodup names).mpr apart

theorem keeps (apart : original.NamesApart) (keeps : changed.Keeps original) :
    changed.NamesApart := by
  refine apart.of_names ?_
  have names := congrArg (List.map Prod.fst) keeps.outlines
  rwa [outlines, outlines, List.map_map, List.map_map] at names

theorem resolved (apart : original.NamesApart) {components : List Component}
    (related : List.Forall₂ Component.Resolves original.components components) :
    NamesApart { original with components } := by
  refine apart.of_names ?_
  change components.map (·.name) = original.components.map (·.name)
  generalize original.components = declared at related
  induction related with
  | nil => rfl
  | cons resolves _ induction =>
      obtain ⟨_, _, rfl, -⟩ := resolves
      rw [List.map_cons, List.map_cons, induction]

/-- What is inherited bears no name of the child. -/
theorem merged {child parent : Definition} (own : child.NamesApart) (handed : parent.NamesApart) :
    (Inheritance.merged child parent).NamesApart := by
  change (List.map _ (List.filter _ parent.components ++ child.components)).Nodup
  rw [List.map_append]
  refine List.nodup_append.mpr ⟨handed.sublist (List.filter_sublist.map _), own, ?_⟩
  rintro _ left _ right rfl
  obtain ⟨inherited, handedOn, same⟩ := List.mem_map.mp left
  obtain ⟨component, among, named⟩ := List.mem_map.mp right
  have undeclared := Option.isNone_iff_eq_none.mp (List.mem_filter.mp handedOn).2
  exact List.find?_eq_none.mp undeclared component among (beq_iff_eq.mpr (named.trans same.symm))

variable {context : Context} (loaded : ∀ id, context.Loaded id → (context.definition id).NamesApart)
include loaded

theorem handsOn {ids : List DefinitionId} {inherited : Definition}
    (handsOn : context.HandsOn ids inherited) : inherited.NamesApart := by
  induction handsOn with
  | first isLoaded => exact loaded _ isLoaded
  | next _ isLoaded _ induction =>
      exact .merged (show (Inheritance.inheritable (context.definition _)).NamesApart from
        loaded _ isLoaded) induction

/-- Where all that is loaded names its sub-components apart, so does what grows. -/
theorem grows {strict : Prop} (grows : Grows strict context original changed)
    (apart : original.NamesApart) : changed.NamesApart := by
  induction grows with
  | refl => exact apart
  | tail _ change induction =>
      cases change with
      | edited edit => exact induction.keeps edit.keeps
      | resolved related => exact induction.resolved related
      | conforming | extended | marked => exact induction
      | merged _ _ handsOn _ => exact merged induction (.handsOn loaded handsOn)

end NamesApart

end Definition

/-- A definition grew, as long as no errors are reported, from what the check of annotations
left earlier, and since from one that names its sub-components apart. Its parents were merged. -/
structure Context.GrewFrom (strict : Prop) (context earlier : Context) (id : DefinitionId) :
    Prop where
  errors : earlier.log.errors <+: context.log.errors
  checked : context.log.errors = [] → (earlier.definition id).IsChecked
  apart : context.log.errors = [] → ∃ declared : Definition, declared.NamesApart ∧
    Definition.Grows strict context (earlier.definition id) declared ∧
    Definition.Grows strict context declared (context.definition id)
  merged : (context.definition id).decorations.extendsMerged = true

end Adl
