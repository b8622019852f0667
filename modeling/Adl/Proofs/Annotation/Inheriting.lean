import Adl.Proofs.Definition.Declarations
import Adl.Proofs.Text.Dotted
import Mathlib.Data.List.Nodup

namespace Adl

open Step Context

/-! Annotations that are handed on. Nodes are told apart by their names as they are written, and
what is built from them by its kind, which is the name without a package. After a union the nodes
are checked again, when the definition is copied. They give what was handed on as long as the
names of both sides agree in being written with or without a package. -/

/-! ## Lists without repetitions -/

/-- What is new of a list of different keys is added as it stands. -/
theorem addNew.of_distinct {α : Type} (key : α → String) {taken added : List α}
    (distinct : (added.map key).Nodup) :
    addNew key taken added = taken ++ added.filter fun item => !taken.any (key · == key item) := by
  induction added generalizing taken with
  | nil => exact (List.append_nil taken).symm
  | cons first rest induction =>
      obtain ⟨apart, distinctRest⟩ := List.nodup_cons.mp distinct
      rw [← List.singleton_append, addNew.append, List.singleton_append, List.filter_cons,
        induction distinctRest, addNew.singleton]
      by_cases known : key first ∈ taken.map key
      · have found : taken.any (key · == key first) = true := by simpa using known
        simp [known, found]
      · have others : ∀ item ∈ rest,
            (!(taken ++ [first]).any (key · == key item)) = !taken.any (key · == key item) := by
          intro item member
          have different : key first ≠ key item := fun same =>
            apart (same ▸ List.mem_map_of_mem member)
          simp [different]
        have absent : taken.any (key · == key first) = false := by simpa using known
        rw [if_neg known, absent, List.filter_congr others]
        simp

/-- Filters that leave the same keys of a list of different ones leave the same items. -/
theorem eq_of_map_filter {α : Type} {key : α → String} {items : List α} {first second : α → Bool}
    (apart : (items.map key).Nodup)
    (same : (items.filter first).map key = (items.filter second).map key) :
    ∀ item ∈ items, first item = second item := by
  have kept : ∀ {keeps : α → Bool}, ∀ item ∈ items,
      keeps item = true ↔ key item ∈ (items.filter keeps).map key := by
    intro keeps item member
    refine ⟨fun isKept => List.mem_map_of_mem (List.mem_filter.mpr ⟨member, isKept⟩), fun among => ?_⟩
    obtain ⟨other, found, sameKey⟩ := List.mem_map.mp among
    obtain ⟨among, isKept⟩ := List.mem_filter.mp found
    exact List.inj_on_of_nodup_map apart among member sameKey ▸ isKept
  intro item member
  rw [Bool.eq_iff_iff, kept item member, kept item member, same]

/-! ## Checking again -/

namespace AnnotationRegistry

variable {registry : AnnotationRegistry} {target : Target} {context : Context}
  {annotations child parent : Annotations}

/-- What is built is of the kind that it is registered as, with or without a package before it. -/
def NamesKinds (registry : AnnotationRegistry) : Prop :=
  ∀ node built, registry.build node = .ok built → built.kind = Text.simpleName node.typeName

theorem namesKinds_predefined : predefined.NamesKinds :=
  fun _ _ => kind_of_build

/-- The annotations are as the check leaves them where it rejects nothing. -/
def Accepts (registry : AnnotationRegistry) (target : Target) (annotations : Annotations) : Prop :=
  ∀ context, registry.checkNodes target [] annotations.nodes context =
    (.ok annotations.typed, context)

/-- Nodes with what is built from each. The kinds are different, and the element admits them. -/
structure Pairs (registry : AnnotationRegistry) (target : Target)
    (pairs : List (AnnotationNode × Annotation)) : Prop where
  builds : ∀ pair ∈ pairs, registry.build pair.1 = .ok pair.2
  admitted : ∀ pair ∈ pairs, pair.2.targets.contains target = true
  apart : (pairs.map (·.2.kind)).Nodup

theorem Pairs.append {pairs : List (AnnotationNode × Annotation)} {node : AnnotationNode}
    {built : Annotation} (paired : registry.Pairs target pairs)
    (builds : registry.build node = .ok built)
    (admitted : built.targets.contains target = true)
    (isNew : (pairs.map (·.2)).any (·.kind == built.kind) = false) :
    registry.Pairs target (pairs ++ [(node, built)]) where
  builds := Definition.forall_append paired.builds fun _ member =>
    List.mem_singleton.mp member ▸ builds
  admitted := Definition.forall_append paired.admitted fun _ member =>
    List.mem_singleton.mp member ▸ admitted
  apart := by
    rw [List.map_append, List.map_singleton, List.nodup_append]
    refine ⟨paired.apart, List.nodup_singleton _, ?_⟩
    rintro _ member _ single same
    obtain ⟨pair, among, rfl⟩ := List.mem_map.mp member
    rw [List.mem_singleton.mp single] at same
    exact List.any_eq_false.mp isNew pair.2 (List.mem_map_of_mem among) (beq_iff_eq.mpr same)

theorem checkNodes_of_pairs {taken pairs : List (AnnotationNode × Annotation)}
    (paired : registry.Pairs target (taken ++ pairs)) (context : Context) :
    registry.checkNodes target (taken.map (·.2)) (pairs.map (·.1)) context =
      (.ok ((taken ++ pairs).map (·.2)), context) := by
  induction pairs generalizing taken with
  | nil =>
      rw [List.append_nil]
      rfl
  | cons first rest induction =>
      have member : first ∈ taken ++ first :: rest := by simp
      have isNew : (taken.map (·.2)).any (·.kind == first.2.kind) = false := by
        have apart := paired.apart
        rw [List.map_append, List.map_cons] at apart
        refine List.any_eq_false.mpr fun other among same => ?_
        obtain ⟨pair, found, rfl⟩ := List.mem_map.mp among
        exact (List.nodup_append.mp apart).2.2 _ (List.mem_map_of_mem found) _
          List.mem_cons_self (beq_iff_eq.mp same)
      rw [List.append_cons] at paired ⊢
      have others := induction paired
      rw [List.map_append, List.map_singleton] at others
      simp only [List.map_cons, checkNodes, paired.builds first (by simp),
        paired.admitted first (by simp), isNew, Bool.not_true, Bool.false_eq_true, if_false]
      exact others

/-- A check that reports nothing has built an annotation from each node. -/
theorem agree_checkNodes_pairs (registry : AnnotationRegistry) (target : Target)
    (taken : List (AnnotationNode × Annotation)) (paired : registry.Pairs target taken)
    (nodes : List AnnotationNode) (context : Context) :
    Agree reporting context (registry.checkNodes target (taken.map (·.2)) nodes)
      (registry.checkNodes target (taken.map (·.2)) nodes)
      fun typed reached => reached.log.errors = [] → ∃ pairs, nodes = pairs.map (·.1) ∧
        typed = (taken ++ pairs).map (·.2) ∧ registry.Pairs target (taken ++ pairs) := by
  induction nodes generalizing taken context with
  | nil => exact .pure trivial fun _ => ⟨[], rfl, by rw [List.append_nil], by rwa [List.append_nil]⟩
  | cons node rest induction =>
      have refused : ∀ {kind : DiagnosticKind} {message : String}
          {post : List Annotation → Prop},
          Agree reporting context
            (do
              Loading.recordError kind node.span message
              registry.checkNodes target (taken.map (·.2)) rest)
            (do
              Loading.recordError kind node.span message
              registry.checkNodes target (taken.map (·.2)) rest)
            fun typed reached => reached.log.errors = [] → post typed :=
        .bind (Loading.agree_recordError _ _ _) fun _ reached _ _ recorded =>
          (induction taken paired reached).mono fun _ _ _ reports _ silent =>
            absurd (reports.evolves.errors_eq_nil silent) recorded
      unfold checkNodes
      cases builds : registry.build node with
      | error error => exact refused
      | ok built =>
          dsimp only
          by_cases admitted : built.targets.contains target = true
          · by_cases known : (taken.map (·.2)).any (·.kind == built.kind) = true
            · simp only [admitted, known, Bool.not_true, Bool.false_eq_true, if_false, if_true]
              exact refused
            · simp only [admitted, known, Bool.not_true, Bool.false_eq_true, if_false]
              have longer : registry.Pairs target (taken ++ [(node, built)]) :=
                paired.append builds admitted (Bool.eq_false_iff.mpr known)
              rw [show taken.map (·.2) ++ [built] = (taken ++ [(node, built)]).map (·.2) by simp]
              refine (induction _ longer context).mono fun _ _ _ _ holds silent => ?_
              obtain ⟨pairs, rfl, rfl, all⟩ := holds silent
              rw [← List.append_cons] at all ⊢
              exact ⟨(node, built) :: pairs, rfl, rfl, all⟩
          · simp only [admitted, Bool.not_false, if_true]
            exact refused

/-- A check that reports nothing, wherever it is made, gives what is built from the nodes. -/
theorem checkNodes_stays_iff {nodes : List AnnotationNode} {typed : List Annotation} :
    (∀ context, registry.checkNodes target [] nodes context = (.ok typed, context)) ↔
      ∃ pairs, nodes = pairs.map (·.1) ∧ typed = pairs.map (·.2) ∧ registry.Pairs target pairs := by
  constructor
  · intro stays
    obtain ⟨-, -, built⟩ := (agree_checkNodes_pairs registry target [] ⟨nofun, nofun, .nil⟩ nodes
      (.ofOptions .default)).of_ok (stays (.ofOptions .default))
    exact built rfl
  · rintro ⟨pairs, rfl, rfl, paired⟩ context
    have whole : registry.Pairs target ([] ++ pairs) := paired
    exact checkNodes_of_pairs whole context

theorem accepts_iff : registry.Accepts target annotations ↔
    ∃ pairs, annotations = ⟨pairs.map (·.1), pairs.map (·.2)⟩ ∧ registry.Pairs target pairs := by
  unfold Accepts
  rw [checkNodes_stays_iff]
  constructor
  · rintro ⟨pairs, nodes, typed, paired⟩
    exact ⟨pairs, by rw [← nodes, ← typed], paired⟩
  · rintro ⟨pairs, rfl, paired⟩
    exact ⟨pairs, rfl, rfl, paired⟩

/-! ## Handing on -/

/-- The node is written with the kind of what is built from it, without a package. -/
def isSimplyNamed (pair : AnnotationNode × Annotation) : Bool :=
  pair.2.kind == pair.1.typeName

/-- Nothing of its kind is there before. -/
def addsKind (own : List (AnnotationNode × Annotation)) (pair : AnnotationNode × Annotation) :
    Bool :=
  !own.any fun known => known.2.kind == pair.2.kind

/-- Nothing of its kind is there before that is written without a package, as it is. -/
def addsNode (own : List (AnnotationNode × Annotation)) (pair : AnnotationNode × Annotation) :
    Bool :=
  isSimplyNamed pair && !own.any fun known => known.2.kind == pair.2.kind && isSimplyNamed known

namespace Pairs

variable {own pairs : List (AnnotationNode × Annotation)}

theorem sublist (paired : registry.Pairs target pairs) (sublist : own.Sublist pairs) :
    registry.Pairs target own where
  builds pair member := paired.builds pair (sublist.subset member)
  admitted pair member := paired.admitted pair (sublist.subset member)
  apart := paired.apart.sublist (sublist.map _)

/-- What is of a new kind may come after. -/
theorem added (ownPaired : registry.Pairs target own) (paired : registry.Pairs target pairs) :
    registry.Pairs target (own ++ pairs.filter (addsKind own)) where
  builds := Definition.forall_append ownPaired.builds (paired.sublist List.filter_sublist).builds
  admitted :=
    Definition.forall_append ownPaired.admitted (paired.sublist List.filter_sublist).admitted
  apart := by
    rw [List.map_append, List.nodup_append]
    refine ⟨ownPaired.apart, (paired.sublist List.filter_sublist).apart, ?_⟩
    rintro _ member _ added same
    obtain ⟨known, among, rfl⟩ := List.mem_map.mp member
    obtain ⟨pair, found, rfl⟩ := List.mem_map.mp added
    have isNew := (List.mem_filter.mp found).2
    rw [addsKind, Bool.not_eq_true', List.any_eq_false] at isNew
    exact isNew known among (beq_iff_eq.mpr same)

/-- What is built is told by the nodes. -/
theorem eq_of_nodes (paired : registry.Pairs target pairs)
    (builds : ∀ pair ∈ own, registry.build pair.1 = .ok pair.2)
    (nodes : own.map (·.1) = pairs.map (·.1)) : own = pairs := by
  have alsoBuilds := paired.builds
  clear paired
  induction own generalizing pairs with
  | nil => exact (List.map_eq_nil_iff.mp nodes.symm).symm
  | cons first rest induction =>
      cases pairs with
      | nil => exact nomatch nodes
      | cons second others =>
          obtain ⟨same, restNodes⟩ := List.cons.inj nodes
          obtain ⟨first, built⟩ := first
          obtain ⟨second, other⟩ := second
          dsimp only at same
          cases same
          have isBuilt := builds (first, built) List.mem_cons_self
          have isOther := alsoBuilds (first, other) List.mem_cons_self
          cases isBuilt.symm.trans isOther
          rw [induction (fun pair member => builds pair (List.mem_cons_of_mem _ member)) restNodes
            fun pair member => alsoBuilds pair (List.mem_cons_of_mem _ member)]

/-- A node that is named as a kind is of this kind, and is written without a package. -/
theorem kind_eq_of_typeName (names : registry.NamesKinds) (paired : registry.Pairs target pairs)
    {pair : AnnotationNode × Annotation} (member : pair ∈ pairs)
    {other : List (AnnotationNode × Annotation)} (otherPaired : registry.Pairs target other)
    {second : AnnotationNode × Annotation} (among : second ∈ other)
    (same : second.2.kind = pair.1.typeName) :
    pair.2.kind = second.2.kind := by
  rw [names _ _ (paired.builds pair member), ← same,
    names _ _ (otherPaired.builds second among), Text.simpleName_simpleName]

/-- Of what is inherited only the nodes are left that are written without a package. -/
theorem inherited (names : registry.NamesKinds) (paired : registry.Pairs target pairs) :
    (Annotations.mk (pairs.map (·.1)) (pairs.map (·.2))).inherited =
      ⟨((pairs.filter (·.2.isInherited)).filter isSimplyNamed).map (·.1),
        (pairs.filter (·.2.isInherited)).map (·.2)⟩ := by
  have typed : (pairs.map (·.2)).filter (·.isInherited) =
      (pairs.filter (·.2.isInherited)).map (·.2) := by
    rw [List.filter_map]
    rfl
  unfold Annotations.inherited
  dsimp only
  rw [typed, List.filter_map, List.filter_filter]
  congr 2
  refine List.filter_congr fun pair member => ?_
  rw [Bool.eq_iff_iff]
  simp only [Function.comp, List.any_eq_true, Bool.and_eq_true, isSimplyNamed, beq_iff_eq]
  constructor
  · rintro ⟨built, handed, same⟩
    obtain ⟨second, among, rfl⟩ := List.mem_map.mp handed
    obtain ⟨among, isInherited⟩ := List.mem_filter.mp among
    have kinds := kind_eq_of_typeName names paired member paired among same
    have equal : pair = second := List.inj_on_of_nodup_map paired.apart member among kinds
    exact ⟨equal ▸ same, equal ▸ isInherited⟩
  · rintro ⟨simple, isInherited⟩
    exact ⟨pair.2, List.mem_map_of_mem (List.mem_filter.mpr ⟨member, isInherited⟩), simple⟩

/-- A node that is written without a package is known if one of its kind is written so. -/
theorem any_typeName_eq (names : registry.NamesKinds) (ownPaired : registry.Pairs target own)
    (paired : registry.Pairs target pairs) {pair : AnnotationNode × Annotation}
    (member : pair ∈ pairs) (simple : isSimplyNamed pair = true) :
    (own.map (·.1)).any (·.typeName == pair.1.typeName) =
      own.any fun known => known.2.kind == pair.2.kind && isSimplyNamed known := by
  have kind : pair.2.kind = pair.1.typeName := beq_iff_eq.mp simple
  rw [Bool.eq_iff_iff]
  simp only [List.any_map, List.any_eq_true, Function.comp, Bool.and_eq_true, isSimplyNamed,
    beq_iff_eq]
  refine exists_congr fun known => and_congr_right fun among => ?_
  constructor
  · intro same
    have kinds := kind_eq_of_typeName names ownPaired among paired member (kind.trans same.symm)
    exact ⟨kinds, kinds.trans (kind.trans same.symm)⟩
  · rintro ⟨kinds, named⟩
    exact named.symm.trans (kinds.trans kind)

/-- The nodes and the typed annotations that a union with what is handed on adds. -/
theorem union (names : registry.NamesKinds) (ownPaired : registry.Pairs target own)
    (paired : registry.Pairs target pairs) :
    (Annotations.mk (own.map (·.1)) (own.map (·.2))).union
        ⟨(pairs.filter isSimplyNamed).map (·.1), pairs.map (·.2)⟩ =
      ⟨(own ++ pairs.filter (addsNode own)).map (·.1),
        (own ++ pairs.filter (addsKind own)).map (·.2)⟩ := by
  have distinct : ((pairs.filter isSimplyNamed).map (·.1.typeName)).Nodup := by
    have same : (pairs.filter isSimplyNamed).map (·.1.typeName) =
        (pairs.filter isSimplyNamed).map (·.2.kind) :=
      List.map_congr_left fun pair member => (beq_iff_eq.mp (List.mem_filter.mp member).2).symm
    rw [same]
    exact (paired.sublist List.filter_sublist).apart
  rw [Annotations.union_eq, addNew.of_distinct AnnotationNode.typeName (by rwa [List.map_map]),
    addNew.of_distinct Annotation.kind (by rw [List.map_map]; exact paired.apart),
    List.filter_map, List.filter_map, List.filter_filter, List.map_append, List.map_append]
  congr 3
  · refine List.filter_congr fun pair member => ?_
    cases simple : isSimplyNamed pair with
    | false => simp [addsNode, simple]
    | true =>
        simp only [addsNode, Function.comp, any_typeName_eq names ownPaired paired member simple,
          simple, Bool.and_true, Bool.true_and]
  · refine List.filter_congr fun pair _ => ?_
    rw [Function.comp, List.any_map]
    rfl

end Pairs

/-- The nodes that are added are those of the annotations that are added. -/
theorem added_iff {own handed : List (AnnotationNode × Annotation)}
    (apart : (own.map (·.2.kind)).Nodup) :
    (∀ pair ∈ handed, addsNode own pair = addsKind own pair) ↔ ∀ pair ∈ handed,
      ((∀ known ∈ own, known.2.kind ≠ pair.2.kind) → isSimplyNamed pair = true) ∧
      ∀ known ∈ own, known.2.kind = pair.2.kind → isSimplyNamed pair = true →
        isSimplyNamed known = true := by
  refine forall₂_congr fun pair _ => ?_
  unfold addsNode addsKind
  by_cases present : ∃ known ∈ own, known.2.kind = pair.2.kind
  · obtain ⟨known, member, same⟩ := present
    have only : ∀ other ∈ own, other.2.kind = pair.2.kind → other = known :=
      fun other among kinds => List.inj_on_of_nodup_map apart among member (kinds.trans same.symm)
    have all : (own.any fun known => known.2.kind == pair.2.kind) = true :=
      List.any_eq_true.mpr ⟨known, member, beq_iff_eq.mpr same⟩
    have simple : (own.any fun known => known.2.kind == pair.2.kind && isSimplyNamed known) =
        isSimplyNamed known := by
      rw [Bool.eq_iff_iff, List.any_eq_true]
      simp only [Bool.and_eq_true, beq_iff_eq]
      constructor
      · rintro ⟨other, among, kinds, isSimple⟩
        exact only other among kinds ▸ isSimple
      · exact fun isSimple => ⟨known, member, same, isSimple⟩
    rw [all, simple]
    constructor
    · refine fun equal => ⟨fun none => absurd same (none known member), ?_⟩
      intro other among kinds isSimple
      rw [only other among kinds]
      simpa [isSimple] using equal
    · rintro ⟨-, agrees⟩
      have agrees := agrees known member same
      cases isSimple : isSimplyNamed pair with
      | false => rfl
      | true => simp [agrees isSimple]
  · have none : ∀ known ∈ own, known.2.kind ≠ pair.2.kind :=
      fun known member same => present ⟨known, member, same⟩
    have noKind : (own.any fun known => known.2.kind == pair.2.kind) = false :=
      List.any_eq_false.mpr fun known member => by simpa using none known member
    have noSimple : (own.any fun known => known.2.kind == pair.2.kind && isSimplyNamed known) =
        false :=
      List.any_eq_false.mpr fun known member => by simp [none known member]
    rw [noKind, noSimple, Bool.not_false, Bool.and_true]
    exact ⟨fun isSimple => ⟨fun _ => isSimple, fun known member same =>
      absurd same (none known member)⟩, fun holds => holds.1 none⟩

end AnnotationRegistry

namespace Annotations

open AnnotationRegistry

variable {registry : AnnotationRegistry} {target : Target} {child parent : Annotations}

/-- What the parent hands on is written without a package if the child has no annotation of its
kind; and if the child has one, this is written so where that of the parent is. -/
def AreWrittenAlike (child parent : Annotations) : Prop :=
  ∀ handed ∈ parent.nodes.zip parent.typed, handed.2.isInherited = true →
    ((∀ own ∈ child.typed, own.kind ≠ handed.2.kind) → handed.1.typeName = handed.2.kind) ∧
    ∀ own ∈ child.nodes.zip child.typed, own.2.kind = handed.2.kind →
      handed.1.typeName = handed.2.kind → own.1.typeName = own.2.kind

theorem areWrittenAlike_iff {own pairs : List (AnnotationNode × Annotation)}
    (apart : (own.map (·.2.kind)).Nodup) :
    (Annotations.mk (own.map (·.1)) (own.map (·.2))).AreWrittenAlike
      ⟨pairs.map (·.1), pairs.map (·.2)⟩ ↔
        ∀ pair ∈ pairs.filter (·.2.isInherited), addsNode own pair = addsKind own pair := by
  have zipped : ∀ pairs : List (AnnotationNode × Annotation),
      (pairs.map (·.1)).zip (pairs.map (·.2)) = pairs := by
    intro pairs
    rw [List.zip_map']
    exact List.map_id _
  rw [added_iff apart]
  unfold AreWrittenAlike
  simp only [zipped, List.forall_mem_map, List.mem_filter, isSimplyNamed, beq_iff_eq, and_imp]
  simp only [eq_comm]

/-- After a union with what is inherited the nodes are accepted again, and give annotations of
the kinds that are there already, if and only if both sides are written alike. Then they give the
very annotations. -/
theorem rechecks_iff_writtenAlike (registry : AnnotationRegistry) (names : registry.NamesKinds)
    (target : Target) (child parent : Annotations) (childAccepted : registry.Accepts target child)
    (parentAccepted : registry.Accepts target parent) :
    ((∃ typed, (∀ context, registry.checkNodes target []
          (child.union parent.inherited).nodes context = (.ok typed, context)) ∧
        typed.map (·.kind) = (child.union parent.inherited).typed.map (·.kind)) ↔
      child.AreWrittenAlike parent) ∧
    (child.AreWrittenAlike parent → registry.Accepts target (child.union parent.inherited)) := by
  obtain ⟨own, rfl, ownPaired⟩ := accepts_iff.mp childAccepted
  obtain ⟨pairs, rfl, paired⟩ := accepts_iff.mp parentAccepted
  have handedPaired : registry.Pairs target (pairs.filter (·.2.isInherited)) :=
    paired.sublist List.filter_sublist
  rw [paired.inherited names, ownPaired.union names handedPaired,
    areWrittenAlike_iff ownPaired.apart]
  generalize pairs.filter (·.2.isInherited) = handed at handedPaired ⊢
  have accepted : (∀ pair ∈ handed, addsNode own pair = addsKind own pair) →
      registry.Accepts target ⟨(own ++ handed.filter (addsNode own)).map (·.1),
        (own ++ handed.filter (addsKind own)).map (·.2)⟩ := fun same =>
    accepts_iff.mpr ⟨_, by rw [List.filter_congr same], ownPaired.added handedPaired⟩
  refine ⟨⟨?_, fun same => ⟨_, accepted same, rfl⟩⟩, accepted⟩
  rintro ⟨typed, stays, kinds⟩
  obtain ⟨rebuilt, nodes, rfl, rebuiltPaired⟩ := checkNodes_stays_iff.mp stays
  have builds : ∀ pair ∈ own ++ handed.filter (addsNode own), registry.build pair.1 = .ok pair.2 :=
    Definition.forall_append ownPaired.builds (handedPaired.sublist List.filter_sublist).builds
  cases rebuiltPaired.eq_of_nodes builds nodes
  simp only [List.map_append, List.map_map, List.append_cancel_left_eq] at kinds
  exact eq_of_map_filter handedPaired.apart kinds

/-- A definition that is to be dumped. -/
def dumped : Annotations :=
  ⟨[.ofType "DumpAST"], [.dump]⟩

/-- A singleton, as it is written. -/
def singleton (typeName : String) : Annotations :=
  ⟨[.ofType typeName], [.singleton]⟩

theorem accepts_dumped : AnnotationRegistry.predefined.Accepts .definition dumped :=
  accepts_iff.mpr ⟨[(.ofType "DumpAST", .dump)], rfl, by decide +kernel, by decide +kernel,
    List.nodup_singleton _⟩

theorem accepts_singleton {typeName : String}
    (builds : AnnotationRegistry.predefined.build (.ofType typeName) = .ok .singleton) :
    AnnotationRegistry.predefined.Accepts .definition (singleton typeName) := by
  refine accepts_iff.mpr ⟨[(.ofType typeName, .singleton)], rfl, ?_, ?_, List.nodup_singleton _⟩
  · exact fun pair member => List.mem_singleton.mp member ▸ builds
  · rintro pair member
    rw [List.mem_singleton.mp member]
    exact (by decide : Annotation.singleton.targets.contains .definition = true)

/-- A singleton that is written without a package is handed on in step. -/
theorem singleton_handed_on :
    AnnotationRegistry.predefined.Accepts .definition
        (dumped.union (singleton "Singleton").inherited) ∧
      (dumped.union (singleton "Singleton").inherited).typed.map (·.kind) =
        ["DumpAST", "Singleton"] := by
  have alike : dumped.AreWrittenAlike (singleton "Singleton") := by
    unfold AreWrittenAlike
    decide +kernel
  exact ⟨(rechecks_iff_writtenAlike .predefined namesKinds_predefined .definition dumped
    (singleton "Singleton") accepts_dumped (accepts_singleton (by decide +kernel))).2 alike,
    by decide +kernel⟩

/-- A singleton that is written with a package loses its node where it is handed on; and one that
is not comes a second time where the child has written it with a package. -/
theorem qualified_out_of_step :
    (AnnotationRegistry.predefined.Accepts .definition dumped ∧
      AnnotationRegistry.predefined.Accepts .definition (singleton "x.Singleton") ∧
      AnnotationRegistry.predefined.Accepts .definition (singleton "Singleton")) ∧
    (∀ context, AnnotationRegistry.predefined.checkNodes .definition []
        (dumped.union (singleton "x.Singleton").inherited).nodes context =
          (.ok [.dump], context)) ∧
    (dumped.union (singleton "x.Singleton").inherited).typed = [.dump, .singleton] ∧
    (AnnotationRegistry.predefined.checkNodes .definition []
        ((singleton "x.Singleton").union (singleton "Singleton").inherited).nodes
        (.ofOptions .default)).2.log.errors =
      [.error .duplicateAnnotationUse .generated "duplicate annotation '@Singleton'"] := by
  refine ⟨⟨accepts_dumped, accepts_singleton (by decide +kernel),
    accepts_singleton (by decide +kernel)⟩, ?_, by decide +kernel, by decide +kernel⟩
  have nodes : (dumped.union (singleton "x.Singleton").inherited).nodes = dumped.nodes := by
    decide +kernel
  rw [nodes]
  exact accepts_dumped

end Annotations

end Adl
