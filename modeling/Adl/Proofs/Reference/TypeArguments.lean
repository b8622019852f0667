import Adl.Proofs.Loading.Collecting
import Mathlib.Data.List.Nodup
import Mathlib.Data.List.Perm.Basic

namespace Adl

/-! How type arguments are mapped to type parameters. Arguments by position are for the parameters
in turn. Arguments by name are collected with their positions and then put into the order in which
the parameters are declared, so that nothing but the positions tells how they were ordered. -/

namespace TypeArguments

variable {reference : Reference} {generic : String} {parameters : List String} {context : Context}
  {arguments others : List TypeArgument}

/-- The arguments are by position, one for each parameter. -/
structure ByPosition (parameters : List String) (arguments : List TypeArgument) : Prop where
  unnamed : ∀ argument ∈ arguments, argument.name = none
  enough : arguments.length = parameters.length

/-- The arguments are by name: each is for a parameter, no two for the same, and each parameter has
one. -/
structure ByName (parameters : List String) (arguments : List TypeArgument) : Prop where
  declared : ∀ argument ∈ arguments, ∃ parameter ∈ parameters, argument.name = some parameter
  distinct : (arguments.map (·.name)).Nodup
  all : ∀ parameter ∈ parameters, some parameter ∈ arguments.map (·.name)

/-- Some arguments are by position and some by name. -/
def Mixes (arguments : List TypeArgument) : Prop :=
  (∃ argument ∈ arguments, argument.name = none) ∧
    ∃ argument ∈ arguments, argument.name.isSome = true

/-- The parameter that an argument is for: the one that it names, or else the one that stands where
it stands. -/
def parameter? (parameters : List String) (argument : TypeArgument) (position : Nat) :
    Option String :=
  argument.name.or parameters[position]?

/-- The parameters, each with the argument that stands at its position. -/
def assigned (arguments : List TypeArgument) (positions : List (String × Nat)) :
    List (String × Option TypeArgument) :=
  positions.map fun entry => (entry.1, arguments[entry.2]?)

/-- The parameters in the order of their declaration, each with the position of its own argument.
The positions are all that there are, each once. -/
structure Maps (parameters : List String) (arguments : List TypeArgument)
    (found : List (String × Nat)) : Prop where
  names : found.map (·.1) = parameters
  positions : (found.map (·.2)).Perm (List.range arguments.length)
  own : ∀ entry ∈ found, ∃ argument, arguments[entry.2]? = some argument ∧
    parameter? parameters argument entry.2 = some entry.1

theorem ByName.of_perm (named : ByName parameters arguments) (perm : arguments.Perm others) :
    ByName parameters others where
  declared argument member := named.declared argument (perm.mem_iff.mpr member)
  distinct := (perm.map _).nodup_iff.mp named.distinct
  all parameter member := (perm.map _).mem_iff.mp (named.all parameter member)

theorem ByPosition.ne_nil (ordinal : ByPosition parameters arguments) (declared : parameters ≠ []) :
    arguments ≠ [] := by
  rintro rfl
  exact declared (List.eq_nil_of_length_eq_zero ordinal.enough.symm)

theorem ByName.ne_nil (named : ByName parameters arguments) (declared : parameters ≠ []) :
    arguments ≠ [] := by
  rintro rfl
  obtain ⟨parameter, member⟩ := List.exists_mem_of_ne_nil _ declared
  exact nomatch named.all parameter member

theorem Mixes.ne_nil (mixes : Mixes arguments) : arguments ≠ [] := by
  obtain ⟨⟨_, member, -⟩, -⟩ := mixes
  exact List.ne_nil_of_mem member

theorem not_byPosition (isNamed : ∃ argument ∈ arguments, argument.name.isSome = true) :
    ¬ByPosition parameters arguments := by
  rintro ⟨unnamed, -⟩
  obtain ⟨argument, member, named⟩ := isNamed
  rw [unnamed argument member] at named
  exact nomatch named

theorem not_byName (unnamed : ∃ argument ∈ arguments, argument.name = none) :
    ¬ByName parameters arguments := by
  rintro ⟨declared, -, -⟩
  obtain ⟨argument, member, none⟩ := unnamed
  obtain ⟨parameter, -, isName⟩ := declared argument member
  exact nomatch none.symm.trans isName

theorem ByPosition.not_mixes (ordinal : ByPosition parameters arguments) : ¬Mixes arguments :=
  fun mixes => not_byPosition mixes.2 ordinal

theorem ByName.not_mixes (named : ByName parameters arguments) : ¬Mixes arguments :=
  fun mixes => not_byName mixes.1 named

/-! ## By position -/

theorem positionProblem?_eq_none_iff {count : Nat} :
    positionProblem? reference generic parameters count = none ↔ count = parameters.length := by
  refine ⟨fun silent => (length_eq_of_no_positionProblem _ _ _ silent).symm, ?_⟩
  rintro rfl
  simp [positionProblem?]

theorem ByPosition.maps (ordinal : ByPosition parameters arguments) :
    Maps parameters arguments (parameters.zip (List.range parameters.length)) where
  names := List.map_fst_zip (by rw [List.length_range])
  positions := by
    rw [List.map_snd_zip (by rw [List.length_range]), ordinal.enough]
  own entry member := by
    obtain ⟨parameter, position⟩ := entry
    rw [List.range_eq_range', ← List.zipIdx_eq_zip_range'] at member
    have declared : parameters[position]? = some parameter :=
      List.mem_zipIdx_iff_getElem?.mp member
    have within : position < arguments.length :=
      ordinal.enough ▸ (List.getElem?_eq_some_iff.mp declared).1
    refine ⟨arguments[position], List.getElem?_eq_getElem within, ?_⟩
    rw [parameter?, ordinal.unnamed _ (List.getElem_mem within), Option.none_or, declared]

/-! ## By name -/

/-- What arguments by name are for, with their positions. -/
def labelled (position : Nat) (arguments : List TypeArgument) : List (String × Nat) :=
  (arguments.zipIdx position).map fun entry => (entry.1.name.getD "", entry.2)

theorem labelled_cons (position : Nat) (argument : TypeArgument) (rest : List TypeArgument) :
    labelled position (argument :: rest) =
      (argument.name.getD "", position) :: labelled (position + 1) rest := by
  rw [labelled, List.zipIdx_cons, List.map_cons]
  rfl

theorem names_labelled (position : Nat) (arguments : List TypeArgument) :
    (labelled position arguments).map (·.1) = arguments.map (·.name.getD "") := by
  have names := congrArg (List.map (·.name.getD "")) (List.zipIdx_map_fst position arguments)
  rw [List.map_map] at names
  rw [labelled, List.map_map]
  exact names

theorem positions_labelled (arguments : List TypeArgument) :
    (labelled 0 arguments).map (·.2) = List.range arguments.length := by
  rw [labelled, List.map_map, List.range_eq_range', ← List.zipIdx_map_snd 0 arguments]
  rfl

/-- Each argument stands where it is listed to be. -/
theorem assigned_labelled (arguments : List TypeArgument) :
    assigned arguments (labelled 0 arguments) =
      arguments.map fun argument => (argument.name.getD "", some argument) := by
  have listed : arguments = arguments.zipIdx.map (·.1) := (List.zipIdx_map_fst 0 arguments).symm
  conv_rhs => rw [listed]
  rw [assigned, labelled, List.map_map, List.map_map]
  refine List.map_congr_left fun entry member => ?_
  change (_, arguments[entry.2]?) = _
  rw [List.mem_zipIdx_iff_getElem?.mp member]
  rfl

/-- Nothing is wrong with arguments that name parameters and no parameter twice. -/
theorem positionsByName_eq_iff {bound found : List (String × Nat)} {position : Nat}
    (distinct : (bound.map (·.1)).Nodup) :
    positionsByName generic parameters bound position arguments = (found, []) ↔
      (∀ argument ∈ arguments, argument.name.getD "" ∈ parameters) ∧
      (bound.map (·.1) ++ arguments.map (·.name.getD "")).Nodup ∧
      found = bound ++ labelled position arguments := by
  induction arguments generalizing bound position with
  | nil => simp [positionsByName, labelled, distinct, eq_comm]
  | cons argument rest induction =>
      have isBound : (bound.any (·.1 == argument.name.getD "") = true) ↔
          argument.name.getD "" ∈ bound.map (·.1) := by
        simp
      -- The names that are bound differ all along, so only the new one has to be looked at.
      rw [positionsByName]
      dsimp only
      rw [List.forall_mem_cons, List.map_cons]
      split
      · rename_i unknown
        refine ⟨fun ends => (nomatch (Prod.mk.inj ends).2), fun ⟨⟨declared, _⟩, _⟩ => ?_⟩
        simp [declared] at unknown
      · rename_i known
        have declared : argument.name.getD "" ∈ parameters := by simpa using known
        split
        · rename_i again
          refine ⟨fun ends => (nomatch (Prod.mk.inj ends).2), fun ⟨_, apart, _⟩ => ?_⟩
          exact absurd rfl ((List.nodup_append.mp apart).2.2 _ (isBound.mp again) _
            List.mem_cons_self)
        · rename_i new
          have nodup : ((bound ++ [(argument.name.getD "", position)]).map (·.1)).Nodup := by
            rw [List.map_append]
            exact (List.perm_append_singleton _ _).nodup_iff.mpr
              (List.nodup_cons.mpr ⟨new ∘ isBound.mpr, distinct⟩)
          rw [induction nodup, List.map_append, labelled_cons,
            List.append_cons bound _ (labelled _ _),
            List.append_cons (bound.map _) _ (rest.map _)]
          exact ⟨fun ⟨others, apart, isFound⟩ => ⟨⟨declared, others⟩, apart, isFound⟩,
            fun ⟨⟨_, others⟩, apart, isFound⟩ => ⟨others, apart, isFound⟩⟩

theorem positionsByName_nil_eq_iff {found : List (String × Nat)} :
    positionsByName generic parameters [] 0 arguments = (found, []) ↔
      (∀ argument ∈ arguments, argument.name.getD "" ∈ parameters) ∧
      (arguments.map (·.name.getD "")).Nodup ∧ found = labelled 0 arguments := by
  rw [positionsByName_eq_iff (by exact List.nodup_nil), List.map_nil, List.nil_append,
    List.nil_append]

/-- Where all arguments have names, these are the names that they are for. -/
theorem names_eq (named : ∀ argument ∈ arguments, argument.name.isSome = true) :
    arguments.map (·.name) = (arguments.map (·.name.getD "")).map some := by
  rw [List.map_map]
  refine List.map_congr_left fun argument member => ?_
  obtain ⟨name, isName⟩ := Option.isSome_iff_exists.mp (named argument member)
  rw [Function.comp_apply, isName, Option.getD_some]

theorem ByName.isSome_name (named : ByName parameters arguments) :
    ∀ argument ∈ arguments, argument.name.isSome = true := by
  intro argument member
  obtain ⟨parameter, -, isName⟩ := named.declared argument member
  rw [isName, Option.isSome_some]

theorem byName_iff (named : ∀ argument ∈ arguments, argument.name.isSome = true) :
    ByName parameters arguments ↔
      (∀ argument ∈ arguments, argument.name.getD "" ∈ parameters) ∧
      (arguments.map (·.name.getD "")).Nodup ∧
      ∀ parameter ∈ parameters, parameter ∈ arguments.map (·.name.getD "") := by
  have name_eq : ∀ argument ∈ arguments, argument.name = some (argument.name.getD "") := by
    intro argument member
    obtain ⟨name, isName⟩ := Option.isSome_iff_exists.mp (named argument member)
    rw [isName, Option.getD_some]
  have names := names_eq named
  constructor
  · rintro ⟨declared, distinct, all⟩
    rw [names] at distinct all
    refine ⟨fun argument member => ?_, distinct.of_map some, fun parameter member => ?_⟩
    · obtain ⟨parameter, isDeclared, isName⟩ := declared argument member
      rwa [isName, Option.getD_some]
    · exact (List.mem_map_of_injective (fun _ _ => Option.some.inj)).mp (all parameter member)
  · rintro ⟨declared, distinct, all⟩
    refine ⟨fun argument member => ⟨_, declared argument member, name_eq argument member⟩, ?_, ?_⟩
    · rw [names]
      exact distinct.map fun _ _ => Option.some.inj
    · rw [names]
      exact fun parameter member => List.mem_map_of_mem (all parameter member)

/-- Arguments by name are for the parameters if nothing is wrong with them and no parameter is
missing. -/
theorem byName_iff_nothing_wrong (generic : String) (parameters : List String)
    (areNamed : ∀ argument ∈ arguments, argument.name.isSome = true) :
    ByName parameters arguments ↔
      ∃ bound, positionsByName generic parameters [] 0 arguments = (bound, []) ∧
        (parameters.find? fun parameter => !bound.any (·.1 == parameter)) = none := by
  have isBound : ∀ (bound : List (String × Nat)) (parameter : String),
      ¬(!bound.any (·.1 == parameter)) = true ↔ parameter ∈ bound.map (·.1) := by
    simp
  simp only [byName_iff areNamed, positionsByName_nil_eq_iff, List.find?_eq_none, isBound]
  constructor
  · rintro ⟨declared, distinct, all⟩
    exact ⟨_, ⟨declared, distinct, rfl⟩, by rwa [names_labelled]⟩
  · rintro ⟨_, ⟨declared, distinct, rfl⟩, all⟩
    exact ⟨declared, distinct, by rwa [names_labelled] at all⟩

/-! ## The order of declaration -/

/-- Items stand in the order in which the parameters that they are for are declared. -/
def InOrder {α : Type} (parameters : List String) (key : α → String) (items : List α) : Prop :=
  items.Pairwise fun first second => parameters.idxOf (key first) ≤ parameters.idxOf (key second)

theorem inOrder_self (distinct : parameters.Nodup) : InOrder parameters id parameters := by
  refine List.pairwise_iff_getElem.mpr fun first second within withinToo before => ?_
  rw [id, id, distinct.idxOf_getElem, distinct.idxOf_getElem]
  exact Nat.le_of_lt before

theorem inOrder_inDeclarationOrder (parameters : List String) (bound : List (String × Nat)) :
    InOrder parameters Prod.fst (inDeclarationOrder parameters bound) := by
  have ordered : (inDeclarationOrder parameters bound).Pairwise fun first second =>
      decide (parameters.idxOf first.1 ≤ parameters.idxOf second.1) = true := by
    refine List.pairwise_mergeSort (fun first second third before after => ?_)
      (fun first second => ?_) bound
    · exact decide_eq_true (Nat.le_trans (of_decide_eq_true before) (of_decide_eq_true after))
    · rw [Bool.or_eq_true, decide_eq_true_iff, decide_eq_true_iff]
      exact Nat.le_total _ _
  exact ordered.imp of_decide_eq_true

/-- Items for different parameters can be put into the order of declaration in one way only. -/
theorem InOrder.eq_of_perm {α : Type} {key : α → String} {left right : List α}
    (inOrder : InOrder parameters key left) (alsoInOrder : InOrder parameters key right)
    (perm : left.Perm right) (declared : ∀ item ∈ left, key item ∈ parameters)
    (distinct : (left.map key).Nodup) : left = right := by
  refine perm.eq_of_pairwise (fun first second member among before after => ?_) inOrder alsoInOrder
  have same : key first = key second :=
    (List.idxOf_inj (declared first member)).mp (Nat.le_antisymm before after)
  exact List.inj_on_of_nodup_map distinct member (perm.mem_iff.mpr among) same

/-- What arguments by name come to where nothing is wrong with them. -/
def placed (parameters : List String) (arguments : List TypeArgument) : List (String × Nat) :=
  inDeclarationOrder parameters (labelled 0 arguments)

theorem perm_placed (parameters : List String) (arguments : List TypeArgument) :
    (placed parameters arguments).Perm (labelled 0 arguments) :=
  List.mergeSort_perm _ _

theorem perm_positions_placed (parameters : List String) (arguments : List TypeArgument) :
    ((placed parameters arguments).map (·.2)).Perm (List.range arguments.length) :=
  positions_labelled arguments ▸ (perm_placed parameters arguments).map _

theorem ByName.maps (named : ByName parameters arguments) (distinct : parameters.Nodup) :
    Maps parameters arguments (placed parameters arguments) where
  names := by
    obtain ⟨declared, apart, all⟩ := (byName_iff named.isSome_name).mp named
    have listed : ((placed parameters arguments).map (·.1)).Perm
        (arguments.map (·.name.getD "")) :=
      names_labelled 0 arguments ▸ (perm_placed parameters arguments).map _
    have perm : ((placed parameters arguments).map (·.1)).Perm parameters := by
      refine listed.trans ((List.perm_ext_iff_of_nodup apart distinct).mpr fun name =>
        ⟨fun member => ?_, all name⟩)
      obtain ⟨argument, among, rfl⟩ := List.mem_map.mp member
      exact declared argument among
    have inOrder : InOrder parameters id ((placed parameters arguments).map (·.1)) :=
      List.pairwise_map.mpr (inOrder_inDeclarationOrder parameters (labelled 0 arguments))
    refine inOrder.eq_of_perm (inOrder_self distinct) perm (fun name => perm.mem_iff.mp) ?_
    rw [List.map_id]
    exact perm.nodup_iff.mpr distinct
  positions := perm_positions_placed parameters arguments
  own entry member := by
    obtain ⟨⟨argument, position⟩, among, rfl⟩ :=
      List.mem_map.mp ((perm_placed parameters arguments).mem_iff.mp member)
    have found : arguments[position]? = some argument := List.mem_zipIdx_iff_getElem?.mp among
    obtain ⟨name, isName⟩ :=
      Option.isSome_iff_exists.mp (named.isSome_name argument (List.mem_of_getElem? found))
    refine ⟨argument, found, ?_⟩
    rw [parameter?, isName, Option.some_or, Option.getD_some]

theorem perm_assigned_placed (parameters : List String) (arguments : List TypeArgument) :
    (assigned arguments (placed parameters arguments)).Perm
      (arguments.map fun argument => (argument.name.getD "", some argument)) :=
  assigned_labelled arguments ▸ (perm_placed parameters arguments).map _

theorem map_getElem?_range (arguments : List TypeArgument) :
    (List.range arguments.length).map (arguments[·]?) = arguments.map some := by
  refine List.ext_getElem (by simp) fun position _ _ => ?_
  simp

/-- Lists of arguments hold the same ones if the same parameters have them, and all are for some
parameter. -/
theorem perm_of_assigned {positions positionsToo : List (String × Nat)}
    (same : assigned others positionsToo = assigned arguments positions)
    (all : (positions.map (·.2)).Perm (List.range arguments.length))
    (allToo : (positionsToo.map (·.2)).Perm (List.range others.length)) :
    arguments.Perm others := by
  have listed {items : List TypeArgument} {places : List (String × Nat)}
      (all : (places.map (·.2)).Perm (List.range items.length)) :
      ((assigned items places).map (·.2)).Perm (items.map some) := by
    rw [← map_getElem?_range, assigned, List.map_map]
    have found := all.map (items[·]?)
    rwa [List.map_map] at found
  exact (List.map_perm_map_iff fun _ _ => Option.some.inj).mp
    ((listed all).symm.trans (same ▸ listed allToo))

/-- Where the arguments are ordered in another way, each parameter has the same argument. -/
theorem ByName.assigned_of_perm (named : ByName parameters arguments)
    (perm : arguments.Perm others) :
    assigned others (placed parameters others) =
      assigned arguments (placed parameters arguments) := by
  have inOrder (items : List TypeArgument) :
      InOrder parameters Prod.fst (assigned items (placed parameters items)) :=
    List.pairwise_map.mpr (inOrder_inDeclarationOrder parameters (labelled 0 items))
  have same := (perm_assigned_placed parameters others).trans
    ((perm.symm.map _).trans (perm_assigned_placed parameters arguments).symm)
  obtain ⟨declared, apart, -⟩ :=
    (byName_iff (named.of_perm perm).isSome_name).mp (named.of_perm perm)
  refine (inOrder others).eq_of_perm (inOrder arguments) same (fun item member => ?_) ?_
  · obtain ⟨argument, among, rfl⟩ :=
      List.mem_map.mp ((perm_assigned_placed parameters others).mem_iff.mp member)
    exact declared argument among
  · rw [((perm_assigned_placed parameters others).map _).nodup_iff, List.map_map]
    exact apart

/-! ## The answer -/

/-- An error about type arguments. -/
def IsComplaint (diagnostic : Diagnostic) : Prop :=
  diagnostic.kind = .invalidTypeArgument ∧ diagnostic.isError = true

/-- How arguments are mapped: something is wrong with them, or they are by position or by name for
the parameters. -/
inductive Verdict (reference : Reference) (generic : String) (parameters : List String)
    (context : Context) : Except LoadError (Option (List (String × Nat))) × Context → Prop
  | refused (problems : List Diagnostic) (present : problems ≠ [])
      (complain : ∀ problem ∈ problems, IsComplaint problem)
      (unordered : parameters ≠ [] → ¬ByPosition parameters reference.typeArguments)
      (unnamed : parameters ≠ [] → ¬ByName parameters reference.typeArguments)
      (uniform : parameters ≠ [] → ¬Mixes reference.typeArguments) :
      Verdict reference generic parameters context (refuse problems context)
  | mixed (declared : parameters ≠ []) (mixes : Mixes reference.typeArguments) :
      Verdict reference generic parameters context
        (.error (.malformed generic
          ("reference '" ++ reference.text ++ "' mixes ordinal and named type arguments")), context)
  | byPosition (declared : parameters ≠ [])
      (ordinal : ByPosition parameters reference.typeArguments) :
      Verdict reference generic parameters context
        (.ok (some (parameters.zip (List.range parameters.length))), context)
  | byName (declared : parameters ≠ []) (named : ByName parameters reference.typeArguments) :
      Verdict reference generic parameters context
        (.ok (some (placed parameters reference.typeArguments)), context)

theorem isComplaint_of_positionProblem? {count : Nat} {diagnostic : Diagnostic}
    (problem : positionProblem? reference generic parameters count = some diagnostic) :
    IsComplaint diagnostic := by
  unfold positionProblem? at problem
  split at problem
  · cases problem
    exact ⟨rfl, rfl⟩
  · split at problem <;> cases problem
    exact ⟨rfl, rfl⟩

theorem isComplaint_of_positionsByName (generic : String) (parameters : List String)
    (arguments : List TypeArgument) (bound : List (String × Nat)) (position : Nat) :
    ∀ problem ∈ (positionsByName generic parameters bound position arguments).2,
      IsComplaint problem := by
  induction arguments generalizing bound position with
  | nil => exact nofun
  | cons argument rest induction =>
      unfold positionsByName
      dsimp only
      split
      · exact List.forall_mem_cons.mpr ⟨⟨rfl, rfl⟩, induction bound (position + 1)⟩
      · split
        · exact List.forall_mem_cons.mpr ⟨⟨rfl, rfl⟩, induction bound (position + 1)⟩
        · exact induction _ (position + 1)

theorem refused_of_nil {problem : Diagnostic} (complains : IsComplaint problem)
    (none : reference.typeArguments = []) :
    Verdict reference generic parameters context (refuse [problem] context) :=
  .refused _ (List.cons_ne_nil _ _) (List.forall_mem_singleton.mpr complains)
    (fun declared ordinal => ordinal.ne_nil declared none)
    (fun declared named => named.ne_nil declared none) fun _ mixes => mixes.ne_nil none

theorem refused_of_unnamed {problem : Diagnostic} (complains : IsComplaint problem)
    (present : reference.typeArguments ≠ [])
    (unnamed : ∀ argument ∈ reference.typeArguments, argument.name = none)
    (tooMany : reference.typeArguments.length ≠ parameters.length) :
    Verdict reference generic parameters context (refuse [problem] context) := by
  obtain ⟨argument, member⟩ := List.exists_mem_of_ne_nil _ present
  refine .refused _ (List.cons_ne_nil _ _) (List.forall_mem_singleton.mpr complains)
    (fun _ ordinal => tooMany ordinal.enough)
    (fun _ => not_byName ⟨argument, member, unnamed argument member⟩) ?_
  rintro - ⟨-, other, among, named⟩
  rw [unnamed other among] at named
  exact nomatch named

theorem refused_of_named {problems : List Diagnostic} (present : problems ≠ [])
    (complain : ∀ problem ∈ problems, IsComplaint problem)
    (someNamed : ∃ argument ∈ reference.typeArguments, argument.name.isSome = true)
    (areNamed : ∀ argument ∈ reference.typeArguments, argument.name.isSome = true)
    (unnamed : ¬ByName parameters reference.typeArguments) :
    Verdict reference generic parameters context (refuse problems context) := by
  refine .refused problems present complain (fun _ => not_byPosition someNamed) (fun _ => unnamed) ?_
  rintro - ⟨⟨argument, member, none⟩, -⟩
  have named := areNamed argument member
  rw [none] at named
  exact nomatch named

theorem verdict_of_positions (reference : Reference) (generic : String)
    (parameters : List String) (context : Context) :
    Verdict reference generic parameters context
      (positions reference generic parameters context) := by
  unfold positions
  dsimp only
  split
  · rename_i noParameters
    have none : parameters = [] := by simpa using noParameters
    exact .refused _ (List.cons_ne_nil _ _) (List.forall_mem_singleton.mpr ⟨rfl, rfl⟩)
      (absurd none) (absurd none) (absurd none)
  · rename_i someParameters
    have declared : parameters ≠ [] := by simpa using someParameters
    split
    · rename_i noArguments
      exact refused_of_nil ⟨rfl, rfl⟩ (by simpa using noArguments)
    · rename_i someArguments
      have present : reference.typeArguments ≠ [] := by simpa using someArguments
      split
      · rename_i areOrdinal
        have unnamed : ∀ argument ∈ reference.typeArguments, argument.name = none := by
          simpa using areOrdinal
        cases problem : positionProblem? reference generic parameters
            reference.typeArguments.length with
        | some diagnostic =>
            refine refused_of_unnamed (isComplaint_of_positionProblem? problem) present unnamed
              fun enough => ?_
            rw [positionProblem?_eq_none_iff.mpr enough] at problem
            exact nomatch problem
        | none => exact .byPosition declared ⟨unnamed, positionProblem?_eq_none_iff.mp problem⟩
      · rename_i notOrdinal
        have someNamed : ∃ argument ∈ reference.typeArguments, argument.name.isSome = true := by
          simpa [Option.isSome_iff_ne_none] using notOrdinal
        split
        · rename_i someOrdinal
          exact .mixed declared ⟨by simpa using someOrdinal, someNamed⟩
        · rename_i noneOrdinal
          have areNamed : ∀ argument ∈ reference.typeArguments, argument.name.isSome = true := by
            simpa [Option.isSome_iff_ne_none] using noneOrdinal
          have complain := isComplaint_of_positionsByName generic parameters
            reference.typeArguments [] 0
          have exactly := byName_iff_nothing_wrong generic parameters areNamed
          rcases found : positionsByName generic parameters [] 0 reference.typeArguments with
            ⟨bound, problems⟩
          rw [found] at complain exactly
          cases problems with
          | cons problem rest =>
              refine refused_of_named (List.cons_ne_nil _ _) complain someNamed areNamed
                fun named => ?_
              obtain ⟨_, same, -⟩ := exactly.mp named
              exact nomatch same
          | nil =>
              cases lacks : parameters.find? fun parameter => !bound.any (·.1 == parameter) with
              | some parameter =>
                  refine refused_of_named (List.cons_ne_nil _ _)
                    (List.forall_mem_singleton.mpr ⟨rfl, rfl⟩) someNamed areNamed fun named => ?_
                  obtain ⟨_, same, complete⟩ := exactly.mp named
                  cases same
                  rw [lacks] at complete
                  exact nomatch complete
              | none =>
                  have named := exactly.mpr ⟨_, rfl, lacks⟩
                  obtain ⟨-, -, rfl⟩ := positionsByName_nil_eq_iff.mp found
                  exact .byName declared named

theorem refuse_ends (collects : context.log.policy = .collect) {problems : List Diagnostic}
    (complain : ∀ problem ∈ problems, IsComplaint problem) :
    refuse problems context = (.ok none, context.collected problems) := by
  rw [refuse, Step.bind_of_ok (Loading.recordAll_of_collecting collects
    fun problem member => (complain problem member).2)]
  rfl

namespace Verdict

variable {answer : Except LoadError (Option (List (String × Nat))) × Context}

theorem found_iff (collects : context.log.policy = .collect)
    (verdict : Verdict reference generic parameters context answer) :
    (∃ found, answer.1 = .ok (some found)) ↔
      parameters ≠ [] ∧ (ByPosition parameters reference.typeArguments ∨
        ByName parameters reference.typeArguments) := by
  cases verdict with
  | refused problems present complain unordered unnamed uniform =>
      rw [refuse_ends collects complain]
      refine ⟨fun ⟨_, ends⟩ => (nomatch ends), fun ⟨declared, either⟩ => ?_⟩
      exact (either.elim (unordered declared) (unnamed declared)).elim
  | mixed declared mixes =>
      refine ⟨fun ⟨_, ends⟩ => (nomatch ends), fun ⟨_, either⟩ => ?_⟩
      exact (either.elim (·.not_mixes) (·.not_mixes) mixes).elim
  | byPosition declared ordinal =>
      exact ⟨fun _ => ⟨declared, .inl ordinal⟩, fun _ => ⟨_, rfl⟩⟩
  | byName declared named => exact ⟨fun _ => ⟨declared, .inr named⟩, fun _ => ⟨_, rfl⟩⟩

theorem maps {found : List (String × Nat)} (collects : context.log.policy = .collect)
    (distinct : parameters.Nodup) (verdict : Verdict reference generic parameters context answer)
    (ends : answer.1 = .ok (some found)) :
    Maps parameters reference.typeArguments found ∧ answer.2 = context := by
  cases verdict with
  | refused problems present complain unordered unnamed uniform =>
      rw [refuse_ends collects complain] at ends
      exact nomatch ends
  | mixed declared mixes => exact nomatch ends
  | byPosition declared ordinal =>
      cases ends
      exact ⟨ordinal.maps, rfl⟩
  | byName declared named =>
      cases ends
      exact ⟨named.maps distinct, rfl⟩

theorem reports (collects : context.log.policy = .collect)
    (verdict : Verdict reference generic parameters context answer) (ends : answer.1 = .ok none) :
    ∃ problems, problems ≠ [] ∧
      (∀ problem ∈ problems, IsComplaint problem ∧ problem ∈ answer.2.log.errors) ∧
      answer.2 = context.collected problems := by
  cases verdict with
  | refused problems present complain unordered unnamed uniform =>
      rw [refuse_ends collects complain]
      refine ⟨problems, present, fun problem member => ⟨complain problem member, ?_⟩, rfl⟩
      exact Context.mem_errors_collected.mpr (.inr member)
  | mixed declared mixes => exact nomatch ends
  | byPosition declared ordinal => exact nomatch ends
  | byName declared named => exact nomatch ends

theorem mixes_iff (collects : context.log.policy = .collect)
    (verdict : Verdict reference generic parameters context answer) :
    (∃ problem, answer.1 = .error (.internal problem)) ↔
      parameters ≠ [] ∧ Mixes reference.typeArguments := by
  cases verdict with
  | refused problems present complain unordered unnamed uniform =>
      rw [refuse_ends collects complain]
      exact ⟨fun ⟨_, ends⟩ => (nomatch ends), fun ⟨declared, mixes⟩ =>
        (uniform declared mixes).elim⟩
  | mixed declared mixes => exact ⟨fun _ => ⟨declared, mixes⟩, fun _ => ⟨_, rfl⟩⟩
  | byPosition declared ordinal =>
      exact ⟨fun ⟨_, ends⟩ => (nomatch ends), fun ⟨_, mixes⟩ => (ordinal.not_mixes mixes).elim⟩
  | byName declared named =>
      exact ⟨fun ⟨_, ends⟩ => (nomatch ends), fun ⟨_, mixes⟩ => (named.not_mixes mixes).elim⟩

theorem error_eq {error : LoadError} (collects : context.log.policy = .collect)
    (verdict : Verdict reference generic parameters context answer)
    (ends : answer.1 = .error error) :
    error = .malformed generic
      ("reference '" ++ reference.text ++ "' mixes ordinal and named type arguments") := by
  cases verdict with
  | refused problems present complain unordered unnamed uniform =>
      rw [refuse_ends collects complain] at ends
      exact nomatch ends
  | mixed declared mixes =>
      cases ends
      rfl
  | byPosition declared ordinal => exact nomatch ends
  | byName declared named => exact nomatch ends

end Verdict

/-- Where no argument is by position, exactly arguments by name that are for the parameters are
mapped. -/
theorem positions_of_named_iff {reached : Context} {found : List (String × Nat)}
    (named : ∀ argument ∈ reference.typeArguments, argument.name.isSome = true) :
    positions reference generic parameters context = (.ok (some found), reached) ↔
      parameters ≠ [] ∧ ByName parameters reference.typeArguments ∧
        found = placed parameters reference.typeArguments ∧ reached = context := by
  have verdict := verdict_of_positions reference generic parameters context
  generalize positions reference generic parameters context = answer at verdict
  cases verdict with
  | refused problems present complain unordered unnamed uniform =>
      refine ⟨fun ends => ?_, fun ⟨declared, isNamed, _⟩ => absurd isNamed (unnamed declared)⟩
      obtain ⟨_, _, -, ends⟩ := Step.ok_of_bind ends
      exact nomatch ends
  | mixed declared mixes =>
      exact ⟨fun ends => (nomatch ends), fun ⟨_, isNamed, _⟩ => absurd mixes isNamed.not_mixes⟩
  | byPosition declared ordinal =>
      obtain ⟨argument, member⟩ := List.exists_mem_of_ne_nil _ (ordinal.ne_nil declared)
      exact (not_byPosition ⟨argument, member, named argument member⟩ ordinal).elim
  | byName declared isNamed =>
      constructor
      · rintro ⟨⟩
        exact ⟨declared, isNamed, rfl, rfl⟩
      · rintro ⟨-, -, rfl, rfl⟩
        rfl

/-- Arguments by name are mapped in another order as well, and each parameter keeps its own. -/
theorem positions_of_perm {reached : Context} {found : List (String × Nat)}
    (named : ∀ argument ∈ reference.typeArguments, argument.name.isSome = true)
    (perm : reference.typeArguments.Perm others)
    (ends : positions reference generic parameters context = (.ok (some found), reached)) :
    ∃ foundToo,
      positions { reference with typeArguments := others } generic parameters context =
        (.ok (some foundToo), reached) ∧
      assigned others foundToo = assigned reference.typeArguments found ∧
      (found.map (·.2)).Perm (List.range reference.typeArguments.length) ∧
      (foundToo.map (·.2)).Perm (List.range others.length) := by
  obtain ⟨declared, areNamed, rfl, rfl⟩ := (positions_of_named_iff named).mp ends
  have namedToo : ∀ argument ∈ others, argument.name.isSome = true :=
    fun argument member => named argument (perm.mem_iff.mpr member)
  exact ⟨placed parameters others,
    (positions_of_named_iff namedToo).mpr ⟨declared, areNamed.of_perm perm, rfl, rfl⟩,
    areNamed.assigned_of_perm perm, perm_positions_placed _ _, perm_positions_placed _ _⟩

end TypeArguments

end Adl
