import Adl.Proofs.Loading.Kept

namespace Adl

open Step Context

/-! What becomes of interfaces. An interface that can be looked up stays as it is while a
definition is loaded, but for typed annotations; and an internal interface stands beside an
external one of its name. -/

namespace Inheritance

theorem isSame_of_accepted {child parent : Definition} {checksMarkers : Bool}
    (accepted : problems child parent checksMarkers = []) {inherited own : Interface}
    (member : inherited ∈ parent.interfaces) (found : child.interface? inherited.name = some own) :
    own.withoutTyped = inherited.withoutTyped := by
  have conflicts : interfaceConflicts child parent = [] := by
    unfold problems at accepted
    simp only [List.append_eq_nil_iff] at accepted
    exact accepted.1.1.1.1.1.2
  have silent := List.filterMap_eq_nil_iff.mp conflicts inherited member
  rw [found] at silent
  by_contra different
  simp [Interface.isSame, different] at silent

/-- What the child declares is not taken over. -/
theorem interface?_merged {child parent : Definition} {name : String} {own : Interface}
    (found : child.interface? name = some own) :
    (merged child parent).interface? name = some own := by
  have merges := takenOver.find? Interface.name child.interfaces parent.interfaces name
  rw [← takenOver.of_find?] at merges
  refine merges.trans ?_
  rw [← Definition.interface?, found, Option.some_or]

end Inheritance

namespace Definition

/-! ## Look-ups -/

/-- The interface of a name, without what is built from its annotations. -/
def form? (definition : Definition) (name : String) : Option Interface :=
  (definition.interface? name).map Interface.withoutTyped

theorem form?_eq (definition : Definition) (name : String) :
    definition.form? name =
      (definition.interfaces.map Interface.withoutTyped).find? (·.name == name) := by
  rw [List.find?_map]
  rfl

/-- The interfaces that another definition has under their names, this one has. -/
def Offers (changed original : Definition) : Prop :=
  ∀ name form, original.form? name = some form → changed.form? name = some form

namespace Offers

variable {original middle changed : Definition}

theorem refl (definition : Definition) : definition.Offers definition :=
  fun _ _ found => found

theorem trans (later : changed.Offers middle) (first : middle.Offers original) :
    changed.Offers original :=
  fun name form found => later name form (first name form found)

theorem of_interfaces (same : changed.interfaces = original.interfaces) :
    changed.Offers original := by
  intro name form found
  rw [form?, interface?] at found ⊢
  rwa [same]

theorem of_interface? (kept : ∀ name interface, original.interface? name = some interface →
    changed.interface? name = some interface) : changed.Offers original := by
  intro name form found
  obtain ⟨interface, declared, rfl⟩ := Option.map_eq_some_iff.mp found
  rw [form?, kept name interface declared]
  rfl

theorem default (changed : Definition) : changed.Offers default :=
  fun _ _ found => nomatch found

end Offers

variable {original changed : Definition}

theorem Edit.offers (edit : Edit original changed) : changed.Offers original := by
  cases edit with
  | annotated path =>
      match path with
      | .interface index =>
          intro name form found
          rw [form?_eq] at found ⊢
          rw [← found]
          exact congrArg _ (map_modify original.interfaces index fun _ _ => rfl)
      | .definition | .internalInterface _ | .attribute _ | .component _ | .binding _
      | .source _ => exact .of_interfaces rfl
  | exposed =>
      refine .of_interface? fun name interface found => ?_
      exact List.find?_append.trans (congrArg (Option.or · _) found)
  | ordered _ lookups =>
      exact .of_interface? fun name interface found => (lookups name).trans found
  | _ => exact .of_interfaces rfl

theorem Grows.offers {strict : Prop} {context : Context}
    (grows : Grows strict context original changed) :
    changed.Offers original := by
  induction grows with
  | refl => exact .refl original
  | tail _ change induction =>
      refine Offers.trans ?_ induction
      cases change with
      | edited edit => exact edit.offers
      | merged => exact .of_interface? fun _ _ found => Inheritance.interface?_merged found
      | conforming | resolved | extended | marked => exact .of_interfaces rfl

end Definition

namespace Context

variable {frontEnd : FrontEnd} {before after : Context}

theorem offers_push (added : Definition) (id : DefinitionId) :
    ({ before with arena := before.arena.push added }.definition id).Offers
      (before.definition id) := by
  by_cases within : id < before.arena.size
  · rw [definition_push before added within]
    exact .refl _
  · rw [default_of_size_le (Nat.not_lt.mp within)]
    exact .default _

/-- Without errors no interface is lost on the way. -/
theorem Path.offers (path : Path frontEnd strict before after) (silent : after.log.errors = [])
    (id : DefinitionId) : (after.definition id).Offers (before.definition id) := by
  induction path with
  | start => exact .refl _
  | reported _ reports induction =>
      rw [reports.definition]
      exact induction (reports.evolves.errors_eq_nil silent)
  | loading _ _ induction => exact induction silent
  | remembered _ _ _ induction => exact induction silent
  | parsed _ _ induction => exact (offers_push _ id).trans (induction silent)
  | copied _ _ _ _ induction => exact (offers_push _ id).trans (induction silent)
  | instantiated _ _ _ _ _ induction => exact (offers_push _ id).trans (induction silent)
  | written _ making grows induction =>
      refine Definition.Offers.trans ?_ (induction silent)
      rename_i slot _ _
      by_cases same : slot = id
      · cases same
        rw [definition_replace _ _ making.within]
        exact (grows silent).offers
      · rw [definition_replace_of_ne _ _ same]
        exact .refl _
  | finished _ _ _ _ _ _ _ _ _ _ induction => exact induction silent

end Context

/-! ## Internal interfaces -/

namespace Definition

/-- Each internal interface is the other side of an external one, and no two have the same
name. -/
structure IsTwinned (definition : Definition) : Prop where
  distinct : (definition.internalInterfaces.map (·.name)).Nodup
  twins : definition.internalInterfaces.map Interface.withoutTyped ⊆
    definition.interfaces.map Interface.dual

namespace IsTwinned

theorem of_none {definition : Definition} (none : definition.internalInterfaces = []) :
    definition.IsTwinned := by
  refine ⟨?_, ?_⟩ <;> rw [none]
  · exact .nil
  · exact List.nil_subset _

variable {original changed : Definition}

theorem of_sides (twinned : original.IsTwinned)
    (internals : changed.internalInterfaces.map Interface.withoutTyped =
      original.internalInterfaces.map Interface.withoutTyped)
    (interfaces : original.interfaces.map Interface.dual ⊆
      changed.interfaces.map Interface.dual) : changed.IsTwinned := by
  refine ⟨?_, internals ▸ List.Subset.trans twinned.twins interfaces⟩
  have names := congrArg (List.map (·.name)) internals
  rw [List.map_map, List.map_map] at names
  exact (congrArg List.Nodup names).mpr twinned.distinct

theorem of_interfaces (twinned : original.IsTwinned)
    (internals : changed.internalInterfaces = original.internalInterfaces)
    (interfaces : original.interfaces ⊆ changed.interfaces) : changed.IsTwinned :=
  twinned.of_sides (congrArg _ internals) (List.map_subset _ interfaces)

/-- The twin of an external interface comes beside it. -/
theorem delegated (twinned : original.IsTwinned) {external : Interface}
    (absent : original.internalInterface? external.name = none)
    (declared : external ∈ original.interfaces) :
    { original with
      internalInterfaces := original.internalInterfaces ++ [external.dual] }.IsTwinned := by
  constructor
  · rw [List.map_append]
    refine List.nodup_append.mpr ⟨twinned.distinct, List.nodup_cons.mpr ⟨nofun, .nil⟩, ?_⟩
    rintro _ member _ last rfl
    obtain ⟨internal, among, same⟩ := List.mem_map.mp member
    refine List.find?_eq_none.mp absent internal among ?_
    exact beq_iff_eq.mpr (same.trans (List.mem_singleton.mp last))
  · rw [List.map_append]
    refine List.append_subset.mpr ⟨twinned.twins, ?_⟩
    rw [List.map_cons, List.map_nil, List.cons_subset]
    exact ⟨List.mem_map.mpr ⟨external, declared, rfl⟩, List.nil_subset _⟩

theorem edit (edit : Edit original changed) (twinned : original.IsTwinned) : changed.IsTwinned := by
  cases edit with
  | annotated path =>
      match path with
      | .interface index =>
          refine twinned.of_sides rfl fun side member => ?_
          refine (congrArg (side ∈ ·) ?_).mpr member
          exact map_modify original.interfaces index fun _ _ => rfl
      | .internalInterface index =>
          exact twinned.of_sides
            (map_modify original.internalInterfaces index fun _ _ => rfl) (List.Subset.refl _)
      | .definition | .attribute _ | .component _ | .binding _ | .source _ =>
          exact twinned.of_interfaces rfl (List.Subset.refl _)
  | exposed => exact twinned.of_interfaces rfl (List.subset_append_left _ _)
  | delegated absent member => exact twinned.delegated absent member
  | ordered perm => exact twinned.of_interfaces rfl perm.symm.subset
  | _ => exact twinned.of_interfaces rfl (List.Subset.refl _)

theorem edits (edits : Edits original changed) (twinned : original.IsTwinned) :
    changed.IsTwinned := by
  induction edits with
  | refl => exact twinned
  | tail _ edit induction => exact induction.edit edit

/-- Where interfaces are overridden by the same ones, twins stay twins. -/
theorem merged {child parent : Definition} {checksMarkers : Bool}
    (accepted : Inheritance.problems child parent checksMarkers = []) (own : child.IsTwinned)
    (handed : parent.IsTwinned) : (Inheritance.merged child parent).IsTwinned := by
  constructor
  · change (List.map _ (List.filter _ parent.internalInterfaces ++ child.internalInterfaces)).Nodup
    rw [List.map_append]
    refine List.nodup_append.mpr
      ⟨handed.distinct.sublist (List.filter_sublist.map _), own.distinct, ?_⟩
    rintro _ left _ right rfl
    obtain ⟨inherited, handedOn, same⟩ := List.mem_map.mp left
    obtain ⟨internal, among, named⟩ := List.mem_map.mp right
    have undeclared := Option.isNone_iff_eq_none.mp (List.mem_filter.mp handedOn).2
    exact List.find?_eq_none.mp undeclared internal among (beq_iff_eq.mpr (named.trans same.symm))
  · intro side member
    change side ∈ List.map _ (List.filter _ parent.internalInterfaces ++ _) at member
    change side ∈ List.map _ (List.filter _ parent.interfaces ++ child.interfaces)
    rw [List.map_append] at member ⊢
    refine List.mem_append.mpr ((List.mem_append.mp member).elim (fun handedOn => ?_)
      fun among => .inr (own.twins among))
    obtain ⟨external, among, isSide⟩ := List.mem_map.mp (handed.twins
      ((List.filter_sublist.map _).subset handedOn))
    cases found : child.interface? external.name with
    | none =>
        exact .inl (List.mem_map.mpr
          ⟨external, List.mem_filter.mpr ⟨among, by simp [found]⟩, isSide⟩)
    | some declared =>
        have same := Inheritance.isSame_of_accepted accepted among found
        refine .inr (List.mem_map.mpr ⟨declared, List.mem_of_find?_eq_some found, ?_⟩)
        have duals : declared.withoutTyped.dual = external.withoutTyped.dual :=
          congrArg Interface.dual same
        exact duals.trans isSide

end IsTwinned

end Definition

theorem FrontEnd.preserves_isTwinned {frontEnd : FrontEnd}
    (parses : ∀ definition, frontEnd.Parses definition → definition.internalInterfaces = []) :
    frontEnd.Preserves Definition.IsTwinned where
  default := .of_none rfl
  parses definition parsed := .of_none (parses definition parsed)
  edit _ _ edit twinned := twinned.edit edit
  typeParameters _ _ twinned := twinned.of_interfaces rfl (List.Subset.refl _)
  components _ _ _ twinned := twinned.of_interfaces rfl (List.Subset.refl _)
  parents _ _ twinned := twinned.of_interfaces rfl (List.Subset.refl _)
  marked _ twinned := twinned.of_interfaces rfl (List.Subset.refl _)
  inheritable _ twinned := twinned.of_interfaces rfl (List.Subset.refl _)
  merged _ _ _ accepted own handed := .merged accepted own handed
  copy _ _ _ twinned := twinned.of_interfaces rfl (List.Subset.refl _)
  bare _ _ _ twinned := twinned.of_interfaces rfl (List.Subset.refl _)

end Adl
