import Adl.Proofs.Loading.Kept

namespace Adl

open Context

/-! Properties of annotations that loading does not take away. Annotations are made of others in
a few ways only: they are built anew, the mark of a singleton is attached, and some of those of a
parent are handed on. What survives these holds of all elements of a definition while it is
loaded, and of its copies and instances. -/

/-- The property holds of no annotations at all, and of all that loading makes of annotations
that have it. -/
structure Annotations.Survives (Holds : Target → Annotations → Prop) : Prop where
  none : ∀ target, Holds target .none
  rebuilt : ∀ target annotations, Holds target annotations →
    Holds target (annotations.rebuilt target)
  attached : ∀ annotations, annotations.has Annotation.singletonKind = false →
    Holds .definition annotations →
    Holds .definition (annotations.attach (.ofType Annotation.singletonKind) .singleton)
  inherited : ∀ annotations, Holds .definition annotations → Holds .definition annotations.inherited
  union : ∀ left right, Holds .definition left → Holds .definition right →
    Holds .definition (left.union right)

namespace Definition

theorem forall_modify {α : Type} {items : List α} {index : Nat} {change : α → α}
    {Holds : α → Prop} (holds : ∀ item ∈ items, Holds item)
    (changes : ∀ item, Holds item → Holds (change item)) :
    ∀ item ∈ items.modify index change, Holds item := by
  intro item member
  rcases exists_of_mem_modify member with old | ⟨other, found, rfl⟩
  · exact holds item old
  · exact changes other (holds other (List.mem_of_getElem? found))

theorem forall_append {α : Type} {left right : List α} {Holds : α → Prop}
    (leftHolds : ∀ item ∈ left, Holds item) (rightHolds : ∀ item ∈ right, Holds item) :
    ∀ item ∈ left ++ right, Holds item :=
  fun item member => (List.mem_append.mp member).elim (leftHolds item) (rightHolds item)

theorem forall_map {α : Type} {items : List α} {change : α → α} {Holds : α → Prop}
    (holds : ∀ item ∈ items, Holds item) (changes : ∀ item, Holds item → Holds (change item)) :
    ∀ item ∈ items.map change, Holds item :=
  List.forall_mem_map.mpr fun item member => changes item (holds item member)

theorem annotations_substitute (bindings : ValueBindings) (component : Component) :
    (component.substitute bindings).annotations = component.annotations := by
  unfold Component.substitute
  split
  · split <;> rfl
  · rfl

theorem annotations_instantiate (context : Context) (bindings : TypeBindings)
    (component : Component) :
    (component.instantiate context bindings).annotations = component.annotations := by
  unfold Component.instantiate
  split
  · split <;> rfl
  · split
    · split <;> rfl
    · rfl

namespace Everywhere

variable {Holds : Target → Annotations → Prop} (survives : Annotations.Survives Holds)
  {definition original changed : Definition}
include survives

theorem default : (default : Definition).Everywhere Holds :=
  ⟨survives.none _, nofun, nofun, nofun, nofun, nofun, nofun⟩

theorem annotated (everywhere : definition.Everywhere Holds) (path : NodePath) :
    (definition.modifyAnnotationsAt path (Annotations.rebuilt path.target)).Everywhere Holds := by
  match path with
  | .definition => exact { everywhere with own := survives.rebuilt _ _ everywhere.own }
  | .interface _ =>
      exact { everywhere with
        interfaces := forall_modify everywhere.interfaces fun _ => survives.rebuilt _ _ }
  | .internalInterface _ =>
      exact { everywhere with
        internalInterfaces := forall_modify everywhere.internalInterfaces
          fun _ => survives.rebuilt _ _ }
  | .attribute _ =>
      exact { everywhere with
        attributes := forall_modify everywhere.attributes fun _ => survives.rebuilt _ _ }
  | .component _ =>
      exact { everywhere with
        components := forall_modify everywhere.components fun _ => survives.rebuilt _ _ }
  | .binding _ =>
      exact { everywhere with
        bindings := forall_modify everywhere.bindings fun _ => survives.rebuilt _ _ }
  | .source _ =>
      exact { everywhere with
        sources := forall_modify everywhere.sources fun _ => survives.rebuilt _ _ }

theorem edit (edit : Edit original changed) (everywhere : original.Everywhere Holds) :
    changed.Everywhere Holds := by
  cases edit with
  | annotated path => exact everywhere.annotated survives path
  | attached isNew => exact { everywhere with own := survives.attached _ isNew everywhere.own }
  | described => exact { everywhere with }
  | exposed =>
      exact { everywhere with
        interfaces := forall_append everywhere.interfaces fun interface member =>
          List.mem_singleton.mp member ▸ survives.none _ }
  | controlled => exact { everywhere with }
  | flagged index =>
      exact { everywhere with
        components := forall_modify everywhere.components fun _ holds => holds }
  | delegated =>
      exact { everywhere with
        internalInterfaces := forall_append everywhere.internalInterfaces
          fun interface member => List.mem_singleton.mp member ▸ survives.none _ }
  | ordered perm =>
      exact { everywhere with
        interfaces := fun interface member => everywhere.interfaces interface (perm.subset member) }
  | rebound origin _ =>
      refine { everywhere with bindings := fun binding member => ?_ }
      obtain ⟨before, among, rewrites⟩ := origin binding member
      exact rewrites.annotations ▸ everywhere.bindings before among
  | settled settles =>
      refine { everywhere with attributes := fun declared member => ?_ }
      obtain ⟨before, among, rfl | ⟨-, value, -, rfl⟩⟩ :=
        exists_left_of_forall₂ settles declared member
      · exact everywhere.attributes _ among
      · exact everywhere.attributes before among
  | parameterized => exact { everywhere with }
  | forwarded parameter _ _ =>
      exact { everywhere with
        components := forall_modify everywhere.components fun _ holds => holds }

theorem edits (edits : original.Edits changed) (everywhere : original.Everywhere Holds) :
    changed.Everywhere Holds := by
  induction edits with
  | refl => exact everywhere
  | tail _ edit induction => exact induction.edit survives edit

theorem inheritable (everywhere : definition.Everywhere Holds) :
    (Inheritance.inheritable definition).Everywhere Holds :=
  { everywhere with own := survives.inherited _ everywhere.own }

theorem merged {child parent : Definition} (own : child.Everywhere Holds)
    (handed : parent.Everywhere Holds) : (Inheritance.merged child parent).Everywhere Holds where
  own := survives.union _ _ own.own handed.own
  interfaces := forall_append
    (fun interface member => handed.interfaces interface (List.mem_filter.mp member).1) own.interfaces
  internalInterfaces := forall_append
    (fun interface member => handed.internalInterfaces interface (List.mem_filter.mp member).1)
    own.internalInterfaces
  attributes := forall_append
    (fun declared member => handed.attributes declared (List.mem_filter.mp member).1) own.attributes
  components := forall_append
    (fun component member => handed.components component (List.mem_filter.mp member).1)
    own.components
  bindings := forall_append
    (fun binding member => handed.bindings binding (List.mem_filter.mp member).1) own.bindings
  sources := forall_append
    (fun source member => handed.sources source (List.mem_filter.mp member).1) own.sources

omit survives in
theorem resolved {components : List Component}
    (related : List.Forall₂ Component.Resolves definition.components components)
    (everywhere : definition.Everywhere Holds) :
    Everywhere Holds { definition with components } := by
  refine { everywhere with components := fun component member => ?_ }
  obtain ⟨before, among, _, _, rfl, -⟩ := exists_left_of_forall₂ related component member
  exact everywhere.components before among

/-- Where all that is loaded has the property, so does what grows. -/
theorem grows {strict : Prop} {context : Context}
    (loaded : ∀ id, context.Loaded id → (context.definition id).Everywhere Holds)
    (grows : Grows strict context original changed) (everywhere : original.Everywhere Holds) :
    changed.Everywhere Holds := by
  have handsOn : ∀ {ids : List DefinitionId} {inherited : Definition},
      context.HandsOn ids inherited → inherited.Everywhere Holds := by
    intro ids inherited handsOn
    induction handsOn with
    | first isLoaded => exact (loaded _ isLoaded).inheritable survives
    | next _ isLoaded _ induction =>
        exact ((loaded _ isLoaded).inheritable survives).merged survives induction
  induction grows with
  | refl => exact everywhere
  | @tail middle _ _ change induction =>
      cases change with
      | edited edit => exact induction.edit survives edit
      | resolved related => exact induction.resolved related
      | conforming | extended | marked => exact { induction with }
      | @merged parents _ _ _ _ handed _ =>
          have extended : Everywhere Holds { middle with parents } := { induction with }
          exact { extended.merged survives (handsOn handed) with }

omit survives in
theorem copy (everywhere : definition.Everywhere Holds) (name : String) (bindings : ValueBindings) :
    (definition.substitute name bindings).Everywhere Holds :=
  { everywhere with
    attributes := forall_map everywhere.attributes fun _ holds => holds
    components := forall_map everywhere.components fun component holds =>
      (annotations_substitute bindings component).symm ▸ holds }

omit survives in
theorem bare {request : InstanceRequest} {context : Context} (name : String)
    (everywhere : (context.definition request.generic).Everywhere Holds) :
    (request.bare context name).Everywhere Holds :=
  { everywhere with
    components := forall_map everywhere.components fun component holds =>
      (annotations_instantiate context request.bindings component).symm ▸ holds }

end Everywhere

end Definition

/-- What survives loading holds of all definitions that there are. -/
theorem Annotations.Survives.preserves {frontEnd : FrontEnd}
    {Holds : Target → Annotations → Prop} (survives : Annotations.Survives Holds)
    (parses : ∀ definition, frontEnd.Parses definition → definition.Everywhere Holds) :
    frontEnd.Preserves (Definition.Everywhere Holds) where
  default := .default survives
  parses := parses
  edit _ _ edit everywhere := everywhere.edit survives edit
  typeParameters _ _ everywhere := { everywhere with }
  components _ _ related everywhere := everywhere.resolved related
  parents _ _ everywhere := { everywhere with }
  marked _ everywhere := { everywhere with }
  inheritable _ everywhere := everywhere.inheritable survives
  merged _ _ _ _ own handed := own.merged survives handed
  copy _ name bindings everywhere := everywhere.copy name bindings
  bare _ _ name everywhere := everywhere.bare name

end Adl
