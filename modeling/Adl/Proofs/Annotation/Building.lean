import Adl.Proofs.Annotation.Ordinary
import Adl.Proofs.Loading.Closing
import Mathlib.Data.List.Nodup

namespace Adl

open Step Context

/-! Typed annotations that were built from the nodes as written. They tell no more than the nodes
do: built again they come out as they are, and nothing is reported. -/

/-- The node bears the name of the kind that is built from it, without a package. -/
def AnnotationNode.IsSimple (node : AnnotationNode) : Prop :=
  ∀ built ∈ (AnnotationRegistry.predefined.build node).toOption, built.kind = node.typeName

instance (node : AnnotationNode) : Decidable node.IsSimple :=
  inferInstanceAs (Decidable (∀ built ∈ _, _))

theorem AnnotationNode.IsSimple.kind {node : AnnotationNode} (simple : node.IsSimple)
    {built : Annotation} (builds : AnnotationRegistry.predefined.build node = .ok built) :
    built.kind = node.typeName :=
  simple built (by rw [builds]; rfl)

theorem AnnotationNode.isSimple_singleton :
    (AnnotationNode.ofType Annotation.singletonKind).IsSimple := by
  decide +kernel

namespace Annotations

/-- Nodes are simple, and typed annotations bear the names of nodes. -/
structure AreNamed (annotations : Annotations) : Prop where
  simple : ∀ node ∈ annotations.nodes, node.IsSimple
  named : ∀ built ∈ annotations.typed, ∃ node ∈ annotations.nodes, node.typeName = built.kind

theorem survives_areNamed : Survives fun _ annotations => annotations.AreNamed where
  none _ := ⟨nofun, nofun⟩
  rebuilt _ _ named := by
    refine ⟨named.simple, fun built member => ?_⟩
    obtain ⟨node, among, builds⟩ := (AnnotationRegistry.mem_accepted member).resolve_left nofun
    exact ⟨node, among, ((named.simple node among).kind builds).symm⟩
  attached _ _ named := by
    refine ⟨Definition.forall_append named.simple fun node member => ?_,
      Definition.forall_append (fun built member => ?_) fun built member => ?_⟩
    · exact List.mem_singleton.mp member ▸ AnnotationNode.isSimple_singleton
    · obtain ⟨node, among, same⟩ := named.named built member
      exact ⟨node, List.mem_append_left _ among, same⟩
    · exact ⟨_, List.mem_append_right _ (List.mem_singleton_self _),
        congrArg Annotation.kind (List.mem_singleton.mp member).symm⟩
  inherited _ named := by
    refine ⟨fun node member => named.simple node (List.mem_filter.mp member).1, ?_⟩
    intro built member
    obtain ⟨node, among, same⟩ := named.named built (List.mem_filter.mp member).1
    refine ⟨node, List.mem_filter.mpr ⟨among, ?_⟩, same⟩
    exact List.any_eq_true.mpr ⟨built, member, beq_iff_eq.mpr same.symm⟩
  union left right leftNamed rightNamed := by
    refine ⟨fun node member => ?_, fun built member => ?_⟩
    · exact (addNew.mem AnnotationNode.typeName member).elim (leftNamed.simple node)
        (rightNamed.simple node)
    · rcases addNew.mem Annotation.kind member with old | new
      · obtain ⟨node, among, same⟩ := leftNamed.named built old
        obtain ⟨other, found, named⟩ := addNew.exists_of_mem AnnotationNode.typeName (.inl among)
        exact ⟨other, found, named.trans same⟩
      · obtain ⟨node, among, same⟩ := rightNamed.named built new
        obtain ⟨other, found, named⟩ := addNew.exists_of_mem AnnotationNode.typeName (.inr among)
        exact ⟨other, found, named.trans same⟩

/-- An annotation is built from a node that bears its kind, and the element admits it. -/
structure BuildsAs (target : Target) (node : AnnotationNode) (built : Annotation) : Prop where
  builds : AnnotationRegistry.predefined.build node = .ok built
  named : built.kind = node.typeName
  admitted : built.targets.contains target = true

/-- The typed annotations are built from the nodes, one from each, and are of different kinds. -/
structure AreBuilt (target : Target) (annotations : Annotations) : Prop where
  built : List.Forall₂ (BuildsAs target) annotations.nodes annotations.typed
  apart : (annotations.typed.map (·.kind)).Nodup

end Annotations

/-! ## Building again -/

namespace AnnotationRegistry

open Annotations

variable {registry : AnnotationRegistry} {target : Target} {taken built : List Annotation}
  {nodes : List AnnotationNode}

theorem kind_not_taken {first : Annotation}
    (apart : ((taken ++ first :: built).map (·.kind)).Nodup) :
    taken.any (·.kind == first.kind) = false := by
  refine List.any_eq_false.mpr fun other member same => ?_
  rw [List.map_append, List.map_cons] at apart
  exact (List.nodup_append.mp apart).2.2 other.kind (List.mem_map_of_mem member) first.kind
    List.mem_cons_self (beq_iff_eq.mp same)

/-- All nodes are accepted that build annotations of different kinds. -/
theorem accepted_of_built (builds : List.Forall₂ (BuildsAs target) nodes built)
    (apart : ((taken ++ built).map (·.kind)).Nodup) :
    predefined.accepted target taken nodes = taken ++ built := by
  induction builds generalizing taken with
  | nil => exact (List.append_nil taken).symm
  | @cons node first rest others builds _ induction =>
      have isNew := kind_not_taken apart
      rw [List.append_cons] at apart ⊢
      simp only [accepted, builds.builds, builds.admitted, isNew, Bool.not_false, Bool.and_true,
        if_true]
      exact induction apart

/-- Their check reports nothing. -/
theorem checkNodes_of_built (harmless : registry.IsHarmless)
    (builds : List.Forall₂ (BuildsAs target) nodes built)
    (apart : ((taken ++ built).map (·.kind)).Nodup) (context : Context) :
    registry.checkNodes target taken nodes context = (.ok (taken ++ built), context) := by
  induction builds generalizing taken with
  | nil =>
      rw [List.append_nil]
      rfl
  | @cons node first rest others builds _ induction =>
      have isNew := kind_not_taken apart
      rw [List.append_cons] at apart ⊢
      simp only [checkNodes, harmless.builds, builds.builds, builds.admitted, isNew, Bool.not_true,
        Bool.false_eq_true, if_false]
      exact induction apart

/-- What is accepted of simple nodes was built from them, if there is no less of it. -/
theorem builds_of_accepted (simple : ∀ node ∈ nodes, node.IsSimple)
    (whole : (predefined.accepted target taken nodes).length = taken.length + nodes.length) :
    ∃ built, predefined.accepted target taken nodes = taken ++ built ∧
      List.Forall₂ (BuildsAs target) nodes built ∧
      ((taken.map (·.kind)).Nodup → ((taken ++ built).map (·.kind)).Nodup) := by
  induction nodes generalizing taken with
  | nil => exact ⟨[], (List.append_nil taken).symm, .nil, fun apart => by rwa [List.append_nil]⟩
  | cons node rest induction =>
      obtain ⟨isSimple, simple⟩ := List.forall_mem_cons.mp simple
      have bound : ∀ taken, (predefined.accepted target taken rest).length ≤
          taken.length + rest.length := fun taken => length_accepted_le target taken rest
      unfold accepted at whole ⊢
      rw [List.length_cons] at whole
      split at whole
      · exact absurd (whole ▸ bound taken) (by omega)
      · rename_i first builds
        split at whole
        · rename_i accepts
          obtain ⟨admitted, isNew⟩ := Bool.and_eq_true_iff.mp accepts
          obtain ⟨built, same, others, apart⟩ := induction simple (whole.trans (by
            rw [List.length_append, List.length_singleton]
            omega))
          rw [if_pos accepts, same, List.append_assoc]
          refine ⟨first :: built, rfl, .cons ⟨builds, isSimple.kind builds, admitted⟩ others, ?_⟩
          intro takenApart
          rw [List.append_cons]
          refine apart ?_
          rw [List.map_append, List.map_singleton, List.nodup_append]
          refine ⟨takenApart, List.nodup_singleton _, ?_⟩
          rintro _ member _ single same
          obtain ⟨other, among, rfl⟩ := List.mem_map.mp member
          rw [List.mem_singleton.mp single] at same
          simp only [Bool.not_eq_true', List.any_eq_false, beq_iff_eq] at isNew
          exact isNew other among same
        · exact absurd (whole ▸ bound taken) (by omega)

end AnnotationRegistry

namespace Annotations

variable {target : Target} {annotations left right : Annotations}

theorem areBuilt_of_isChecked (checked : annotations.IsChecked target)
    (named : annotations.AreNamed) : annotations.AreBuilt target := by
  rcases checked.built with none | same
  · have untyped : annotations.typed = [] := by
      refine List.eq_nil_iff_forall_not_mem.mpr fun built member => ?_
      obtain ⟨node, among, -⟩ := named.named built member
      exact nomatch none ▸ among
    refine ⟨?_, ?_⟩
    · rw [none, untyped]
      exact .nil
    · rw [untyped]
      exact .nil
  · have isTyped : AnnotationRegistry.predefined.accepted target [] annotations.nodes =
        annotations.typed := congrArg Annotations.typed same
    obtain ⟨built, isBuilt, builds, apart⟩ := AnnotationRegistry.builds_of_accepted named.simple
      (checked.whole.trans (Nat.zero_add _).symm)
    rw [isTyped, List.nil_append] at isBuilt
    exact ⟨isBuilt ▸ builds, isBuilt ▸ apart .nil⟩

namespace AreBuilt

theorem accepted (built : annotations.AreBuilt target) :
    AnnotationRegistry.predefined.accepted target [] annotations.nodes = annotations.typed :=
  AnnotationRegistry.accepted_of_built built.built built.apart

/-- Nothing changes when they are built anew. -/
theorem rebuilt (built : annotations.AreBuilt target) : annotations.rebuilt target = annotations := by
  rw [Annotations.rebuilt, built.accepted]

/-- Typed annotations come back where they were dropped. -/
theorem rebuilt_withoutTyped (built : annotations.AreBuilt target) :
    annotations.withoutTyped.rebuilt target = annotations :=
  built.rebuilt

theorem isPredefined (built : annotations.AreBuilt target) : annotations.ArePredefined := by
  intro item member
  obtain ⟨node, -, builds⟩ := exists_left_of_forall₂ built.built item member
  exact ⟨node, builds.builds⟩

theorem admitted (built : annotations.AreBuilt target) :
    ∀ item ∈ annotations.typed, item.targets.contains target = true := by
  intro item member
  obtain ⟨_, -, builds⟩ := exists_left_of_forall₂ built.built item member
  exact builds.admitted

/-- Names of nodes are kinds of annotations. -/
theorem any_iff {nodes : List AnnotationNode} {typed : List Annotation} {name : String}
    (built : List.Forall₂ (BuildsAs target) nodes typed) :
    typed.any (·.kind == name) = nodes.any (·.typeName == name) := by
  induction built with
  | nil => rfl
  | cons builds _ induction => rw [List.any_cons, List.any_cons, induction, builds.named]

theorem inherited (built : annotations.AreBuilt .definition) :
    annotations.inherited.AreBuilt .definition := by
  obtain ⟨nodes, typed⟩ := annotations
  obtain ⟨builds, apart⟩ := built
  have kept : typed.filter (fun built =>
      (typed.filter (·.isInherited)).any (·.kind == built.kind)) = typed.filter (·.isInherited) := by
    refine List.filter_congr fun built member => ?_
    rw [Bool.eq_iff_iff, List.any_eq_true]
    constructor
    · rintro ⟨other, among, same⟩
      obtain ⟨among, isInherited⟩ := List.mem_filter.mp among
      exact List.inj_on_of_nodup_map apart among member (beq_iff_eq.mp same) ▸ isInherited
    · exact fun isInherited => ⟨built, List.mem_filter.mpr ⟨member, isInherited⟩, beq_self_eq_true _⟩
  have handed : List.Forall₂ (BuildsAs .definition)
      (nodes.filter fun node => (typed.filter (·.isInherited)).any (·.kind == node.typeName))
      (typed.filter fun built => (typed.filter (·.isInherited)).any (·.kind == built.kind)) :=
    List.rel_filter (fun _ _ builds => by simp only [builds.named]) builds
  rw [kept] at handed
  exact ⟨handed, apart.sublist (List.filter_sublist.map _)⟩

theorem union (leftBuilt : left.AreBuilt .definition) (rightBuilt : right.AreBuilt .definition) :
    (left.union right).AreBuilt .definition := by
  obtain ⟨leftNodes, leftTyped⟩ := left
  obtain ⟨rightNodes, rightTyped⟩ := right
  obtain ⟨built, -⟩ := rightBuilt
  change List.Forall₂ _ rightNodes rightTyped at built
  induction built generalizing leftNodes leftTyped with
  | nil => exact leftBuilt
  | @cons node first rest others builds _ induction =>
      have known : leftTyped.any (·.kind == first.kind) =
          leftNodes.any (·.typeName == node.typeName) :=
        builds.named ▸ any_iff leftBuilt.built
      simp only [Annotations.union, List.foldl_cons, known]
      split
      · exact induction leftNodes leftTyped leftBuilt
      · rename_i isNew
        refine induction _ _ ⟨List.rel_append leftBuilt.built (.cons builds .nil), ?_⟩
        rw [List.map_append, List.map_singleton, List.nodup_append]
        refine ⟨leftBuilt.apart, List.nodup_singleton _, ?_⟩
        rintro _ member _ single same
        obtain ⟨other, among, rfl⟩ := List.mem_map.mp member
        rw [List.mem_singleton.mp single] at same
        exact isNew (known ▸ List.any_eq_true.mpr ⟨other, among, beq_iff_eq.mpr same⟩)

theorem attached (built : annotations.AreBuilt .definition)
    (isNew : annotations.has Annotation.singletonKind = false) :
    (annotations.attach (.ofType Annotation.singletonKind) .singleton).AreBuilt .definition := by
  refine ⟨List.rel_append built.built (.cons ⟨by decide +kernel, rfl, by decide⟩ .nil), ?_⟩
  change ((annotations.typed ++ [ Annotation.singleton]).map (·.kind)).Nodup
  rw [List.map_append, List.map_singleton, List.nodup_append]
  refine ⟨built.apart, List.nodup_singleton _, ?_⟩
  rintro _ member _ single same
  obtain ⟨other, among, rfl⟩ := List.mem_map.mp member
  rw [List.mem_singleton.mp single] at same
  exact List.any_eq_false.mp (Bool.or_eq_false_iff.mp isNew).1 other among (beq_iff_eq.mpr same)

theorem survives : Survives AreBuilt where
  none _ := ⟨.nil, .nil⟩
  rebuilt _ _ built := built.rebuilt.symm ▸ built
  attached _ isNew built := built.attached isNew
  inherited _ built := built.inherited
  union _ _ leftBuilt rightBuilt := leftBuilt.union rightBuilt

end AreBuilt

end Annotations

/-! ## Definitions -/

namespace Definition

/-- The annotations of the definition and of its elements are written by simple names, and none is
built yet. -/
structure IsPlainlyAnnotated (definition : Definition) : Prop where
  untyped : definition.IsUntyped
  simple : definition.Everywhere fun _ annotations => ∀ node ∈ annotations.nodes, node.IsSimple

instance (definition : Definition) : Decidable definition.IsPlainlyAnnotated :=
  decidable_of_iff (definition.IsUntyped ∧ definition.Everywhere fun _ annotations =>
      ∀ node ∈ annotations.nodes, node.IsSimple)
    ⟨fun ⟨untyped, simple⟩ => ⟨untyped, simple⟩, fun plain => ⟨plain.untyped, plain.simple⟩⟩

theorem IsUntyped.everywhere {definition : Definition} (untyped : definition.IsUntyped) :
    definition.Everywhere fun _ annotations => annotations.typed = [] :=
  have ⟨own, interfaces, internalInterfaces, attributes, components, bindings, sources⟩ := untyped
  ⟨own, interfaces, internalInterfaces, attributes, components, bindings, sources⟩

theorem IsPlainlyAnnotated.areNamed {definition : Definition} (plain : definition.IsPlainlyAnnotated) :
    definition.Everywhere fun _ annotations => annotations.AreNamed :=
  (plain.simple.and plain.untyped.everywhere).mono fun _ _ ⟨simple, isEmpty⟩ =>
    ⟨simple, fun _ member => nomatch isEmpty ▸ member⟩

end Definition

namespace Context

variable {frontEnd : FrontEnd} {strict : Prop} {origin earlier middle after : Context}
  {id : DefinitionId}

theorem GrewFrom.areBuilt (grew : middle.GrewFrom strict earlier id)
    (named : (earlier.definition id).Everywhere fun _ annotations => annotations.AreNamed)
    (loaded : ∀ other, middle.Loaded other →
      (middle.definition other).Everywhere Annotations.AreBuilt)
    (silent : middle.log.errors = []) : (middle.definition id).Everywhere Annotations.AreBuilt := by
  obtain ⟨declared, -, first, second⟩ := grew.apart silent
  have built : (earlier.definition id).Everywhere Annotations.AreBuilt :=
    ((grew.checked silent).and named).mono fun _ _ ⟨checked, named⟩ =>
      Annotations.areBuilt_of_isChecked checked named
  exact built.grows Annotations.AreBuilt.survives loaded (first.trans second)

/-- All that is loaded on the way has its annotations built. -/
theorem Path.areBuilt (harmless : frontEnd.registry.IsHarmless)
    (path : Path frontEnd strict origin after) (slots : origin.HasSlots)
    (start : ∀ id, ¬origin.Loaded id)
    (named : ∀ {reached}, Path frontEnd strict origin reached → reached.log.errors = [] →
      ∀ id, (reached.definition id).Everywhere fun _ annotations => annotations.AreNamed)
    (silent : after.log.errors = []) :
    ∀ id, after.Loaded id → (after.definition id).Everywhere Annotations.AreBuilt := by
  refine path.forall_loaded slots (fun id loaded => absurd loaded (start id)) ?_ silent
  intro earlier middle before name id load pathEarlier making grew ran silent loaded
  have edited := (Stage.edited_of_runOthers harmless (by decide) making ran).2
  have silentMiddle := edited.silent silent
  exact (grew.areBuilt (named pathEarlier (List.prefix_nil.mp (silentMiddle ▸ grew.errors)) id)
    (loaded silentMiddle) silentMiddle).edits Annotations.AreBuilt.survives edited.edits

end Context

end Adl
