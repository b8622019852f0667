import Adl.Proofs.Loading.Scoping

namespace Adl

/-! Replacing parameters by values, and then the parameters that these values mention, is one
replacement: nothing is captured, and nothing that was put in is replaced again. -/

/-! ## Texts that are appended once -/

theorem appendNew_append (left middle right : List String) :
    appendNew left (middle ++ right) = appendNew (appendNew left middle) right :=
  List.foldl_append

theorem appendNew_singleton (items : List String) (item : String) :
    appendNew items [item] = if item ∈ items then items else items ++ [item] := by
  simp [appendNew]

/-- What comes again adds nothing, whatever is chosen from the texts afterwards. -/
theorem appendNew_filterMap (choose : String → Option String) (items : List String) :
    appendNew [] ((appendNew [] items).filterMap choose) =
      appendNew [] (items.filterMap choose) := by
  induction items using List.reverseRecOn with
  | nil => rfl
  | append_singleton items last induction =>
      rw [appendNew_append, List.filterMap_append, appendNew_append, ← induction,
        appendNew_singleton]
      split
      · rename_i again
        cases chosen : choose last with
        | none => simp [chosen, appendNew]
        | some other =>
            have among : other ∈ appendNew [] ((appendNew [] items).filterMap choose) :=
              (mem_appendNew _ _).mpr (.inr (List.mem_filterMap.mpr ⟨last, again, chosen⟩))
            simp [chosen, appendNew_singleton, among]
      · rw [List.filterMap_append, appendNew_append]

theorem nodup_appendNew {left : List String} (nodup : left.Nodup) (right : List String) :
    (appendNew left right).Nodup := by
  induction right generalizing left with
  | nil => exact nodup
  | cons first rest induction =>
      rw [← List.singleton_append, appendNew_append, appendNew_singleton]
      refine induction ?_
      split
      · exact nodup
      · rename_i fresh
        refine List.nodup_append.mpr ⟨nodup, List.pairwise_singleton _ _, ?_⟩
        intro item member other isFirst equal
        exact fresh (List.mem_singleton.mp isFirst ▸ equal ▸ member)

theorem appendNew_of_nodup {items : List String} (nodup : items.Nodup) :
    appendNew [] items = items := by
  induction items using List.reverseRecOn with
  | nil => rfl
  | append_singleton items last induction =>
      obtain ⟨first, -, apart⟩ := List.nodup_append.mp nodup
      have fresh : last ∉ items := fun among => apart last among last (by simp) rfl
      rw [appendNew_append, induction first, appendNew_singleton, if_neg fresh]

/-! ## Composed bindings -/

/-- Each value of the first bindings, with its parameters replaced as in the second. -/
def ValueBindings.andThen (first second : ValueBindings) : ValueBindings :=
  ⟨first.entries.map fun entry => (entry.1, entry.2.substitute second)⟩

/-- All parameters that are mentioned are bound. -/
def ValueBindings.Covers (bindings : ValueBindings) (values : List Value) : Prop :=
  ∀ value ∈ values, value.reference?.all bindings.contains = true

namespace ValueBindings

variable {first second : ValueBindings}

theorem find?_andThen (key : String) :
    (first.andThen second).find? key = (first.find? key).map (·.substitute second) := by
  obtain ⟨entries⟩ := first
  change Table.findEntry key (entries.map _) = (Table.findEntry key entries).map _
  induction entries with
  | nil => rfl
  | cons entry rest induction =>
      by_cases equal : entry.1 = key <;> simp [Table.findEntry, equal, induction]

theorem contains_andThen (key : String) :
    (first.andThen second).contains key = first.contains key := by
  simp [Table.contains, find?_andThen]

theorem values_andThen :
    (first.andThen second).values = first.values.map (·.substitute second) := by
  simp [andThen, Table.values]

theorem isBoundBy_andThen (value : Value) :
    value.isBoundBy (first.andThen second) = value.isBoundBy first := by
  unfold Value.isBoundBy
  exact congrArg value.reference?.any (funext contains_andThen)

/-- Once all that a value mentions is bound, two replacements are one. -/
theorem substitute_andThen {value : Value}
    (bound : value.reference?.all first.contains = true) :
    (value.substitute first).substitute second = value.substitute (first.andThen second) := by
  cases value with
  | reference parameter =>
      obtain ⟨kept, found⟩ := Table.contains_eq_true_iff.mp bound
      simp [Value.substitute, find?_andThen, found]
  | _ => rfl

theorem substitute_eq_self {value : Value} (free : value.isBoundBy second = false) :
    value.substitute second = value := by
  cases value with
  | reference parameter =>
      have absent : second.find? parameter = none := Table.find?_eq_none_of_not_contains free
      simp [Value.substitute, absent]
  | _ => rfl

end ValueBindings

/-! ## References -/

namespace Reference

variable {bindings first second : ValueBindings}

mutual
theorem substitute_substitute : (reference : Reference) → first.Covers reference.values →
    (reference.substitute first).substitute second = reference.substitute (first.andThen second)
  | ⟨_, arguments, typeArguments, _, _⟩, covers => by
      have here : ∀ argument ∈ arguments, (argument.substitute first).substitute second =
          argument.substitute (first.andThen second) := fun argument member =>
        congrArg (fun value => { argument with value })
          (ValueBindings.substitute_andThen (covers argument.value
            (List.mem_append_left _ (List.mem_map_of_mem member))))
      have below : first.Covers (typeArgumentValues typeArguments) := fun value member =>
        covers value (List.mem_append_right _ member)
      simp only [substitute, List.map_map, substituteTypeArguments_substitute typeArguments below]
      rw [List.map_congr_left (by simpa using here)]

theorem substituteTypeArguments_substitute : (arguments : List TypeArgument) →
    first.Covers (typeArgumentValues arguments) →
    substituteTypeArguments second (substituteTypeArguments first arguments) =
      substituteTypeArguments (first.andThen second) arguments
  | [], _ => rfl
  | ⟨_, .definition reference, _⟩ :: rest, covers => by
      simp only [substituteTypeArguments,
        substitute_substitute reference fun value member =>
          covers value (List.mem_append_left _ member),
        substituteTypeArguments_substitute rest fun value member =>
          covers value (List.mem_append_right _ member)]
  | ⟨_, .parameter _, _⟩ :: rest, covers => by
      simp only [substituteTypeArguments, substituteTypeArguments_substitute rest covers]
end

mutual
/-- A reference that uses no bound parameter stays as it is. -/
theorem substitute_eq_self : (reference : Reference) → reference.uses bindings = false →
    reference.substitute bindings = reference
  | ⟨_, arguments, typeArguments, _, _⟩, unused => by
      obtain ⟨here, below⟩ := Bool.or_eq_false_iff.mp unused
      have same : ∀ argument ∈ arguments, argument.substitute bindings = argument :=
        fun argument member => congrArg (fun value => { argument with value })
          (ValueBindings.substitute_eq_self (by simpa using List.any_eq_false.mp here _ member))
      simp only [substitute, substituteTypeArguments_eq_self typeArguments below]
      rw [List.map_congr_left same, List.map_id']

theorem substituteTypeArguments_eq_self : (arguments : List TypeArgument) →
    typeArgumentsUse bindings arguments = false →
    substituteTypeArguments bindings arguments = arguments
  | [], _ => rfl
  | ⟨_, .definition reference, _⟩ :: rest, unused => by
      obtain ⟨here, below⟩ := Bool.or_eq_false_iff.mp unused
      simp only [substituteTypeArguments, substitute_eq_self reference here,
        substituteTypeArguments_eq_self rest below]
  | ⟨_, .parameter _, _⟩ :: rest, unused => by
      simp only [substituteTypeArguments, substituteTypeArguments_eq_self rest unused]
end

mutual
theorem clearResolution_substitute : (reference : Reference) →
    (reference.substitute bindings).clearResolution =
      reference.clearResolution.substitute bindings
  | ⟨_, _, typeArguments, _, _⟩ => by
      simp only [substitute, clearResolution, clearTypeArguments_substitute typeArguments]

theorem clearTypeArguments_substitute : (arguments : List TypeArgument) →
    clearTypeArguments (substituteTypeArguments bindings arguments) =
      substituteTypeArguments bindings (clearTypeArguments arguments)
  | [] => rfl
  | ⟨_, .definition reference, _⟩ :: rest => by
      simp only [substituteTypeArguments, clearTypeArguments,
        clearResolution_substitute reference, clearTypeArguments_substitute rest]
  | ⟨_, .parameter _, _⟩ :: rest => by
      simp only [substituteTypeArguments, clearTypeArguments, clearTypeArguments_substitute rest]
end

mutual
theorem clearResolution_clearResolution : (reference : Reference) →
    reference.clearResolution.clearResolution = reference.clearResolution
  | ⟨_, _, typeArguments, _, _⟩ => by
      simp only [clearResolution, clearTypeArguments_clear typeArguments]

theorem clearTypeArguments_clear : (arguments : List TypeArgument) →
    clearTypeArguments (clearTypeArguments arguments) = clearTypeArguments arguments
  | [] => rfl
  | ⟨_, .definition reference, _⟩ :: rest => by
      simp only [clearTypeArguments, clearResolution_clearResolution reference,
        clearTypeArguments_clear rest]
  | ⟨_, .parameter _, _⟩ :: rest => by
      simp only [clearTypeArguments, clearTypeArguments_clear rest]
end

theorem uses_andThen (reference : Reference) :
    reference.uses (first.andThen second) = reference.uses first := by
  simp only [uses_eq_any, ValueBindings.isBoundBy_andThen]

end Reference

/-! ## Sub-components -/

namespace Component

variable {first second : ValueBindings}

/-- A reference loses its resolution under the composed bindings exactly if it does under the
first ones: where these put nothing in, nothing is left to replace. -/
theorem substitute_substitute (component : Component) (covers : first.Covers component.values) :
    (component.substitute first).substitute second =
      component.substitute (first.andThen second) := by
  obtain ⟨name, definition, typeParameter, span, annotations, resolved, flag⟩ := component
  cases definition with
  | none => rfl
  | some reference =>
      replace covers : first.Covers reference.values := covers
      cases used : reference.uses first with
      | true =>
          have composed : ((reference.substitute first).clearResolution.substitute
              second).clearResolution =
                (reference.substitute (first.andThen second)).clearResolution := by
            rw [← Reference.clearResolution_substitute, Reference.clearResolution_clearResolution,
              Reference.substitute_substitute reference covers]
          cases again : (reference.substitute first).clearResolution.uses second with
          | true =>
              simp only [substitute, used, Reference.uses_andThen, again, if_true, composed]
          | false =>
              rw [Reference.substitute_eq_self _ again,
                Reference.clearResolution_clearResolution] at composed
              rw [composed] at again
              simp [substitute, used, Reference.uses_andThen, composed, again]
      | false =>
          have literal : reference.uses second = false := by
            rw [Reference.uses_eq_any, List.any_eq_false] at used ⊢
            intro value member
            have isFree := used value member
            have isCovered := covers value member
            cases value with
            | reference parameter => exact absurd isCovered isFree
            | _ => exact Bool.false_ne_true
          simp [substitute, used, literal, Reference.uses_andThen]

end Component

/-! ## Definitions -/

theorem MemberSet.erase_erase {α : Type} [Member α] (set : MemberSet α) (item : α) :
    (set.erase item).erase item = set.erase item := by
  simp only [erase, UInt16.and_assoc, UInt16.and_self]

namespace Definition

variable {definition : Definition} {bindings first second : ValueBindings}

/-- The bindings give a value to every parameter, each once, in the order of the parameters. -/
def IsBoundBy (definition : Definition) (bindings : ValueBindings) : Prop :=
  bindings.keys = appendNew [] (definition.parameters.map (·.name))

instance (definition : Definition) (bindings : ValueBindings) :
    Decidable (definition.IsBoundBy bindings) :=
  inferInstanceAs (Decidable (_ = _))

theorem names_parameters_substitute (name : String) :
    (definition.substitute name bindings).parameters.map (·.name) =
      forwardedParameters bindings := by
  simp [substitute, Function.comp_def]

/-- What the bindings of a copy are keyed by. -/
theorem IsBoundBy.keys_eq {name : String}
    (isBound : (definition.substitute name first).IsBoundBy second) :
    second.keys = forwardedParameters first := by
  rw [isBound, names_parameters_substitute]
  exact appendNew_of_nodup (nodup_appendNew .nil _)

theorem covers_values (keys : second.keys = forwardedParameters first) :
    second.Covers first.values := by
  intro value member
  cases value with
  | reference parameter =>
      refine Table.contains_iff_mem_keys.mpr ?_
      rw [keys]
      exact (mem_appendNew _ _).mpr (.inr (List.mem_filterMap.mpr ⟨_, member, rfl⟩))
  | _ => rfl

/-- The parameters that stay, and their order, are those of the composed bindings. -/
theorem forwardedParameters_andThen (keys : second.keys = forwardedParameters first) :
    forwardedParameters (first.andThen second) = forwardedParameters second := by
  have nodup : second.keys.Nodup := keys ▸ nodup_appendNew .nil _
  let choose : String → Option String := fun parameter =>
    (second.find? parameter).bind Value.reference?
  have replaced : ∀ value ∈ first.values,
      (value.substitute second).reference? = value.reference?.bind choose := by
    intro value member
    have isCovered := covers_values keys value member
    cases value with
    | reference parameter =>
        obtain ⟨bound, found⟩ := Table.contains_eq_true_iff.mp isCovered
        simp [choose, Value.substitute, Value.reference?, found]
    | _ => rfl
  calc forwardedParameters (first.andThen second)
      = appendNew [] (first.values.filterMap fun value => value.reference?.bind choose) := by
        unfold forwardedParameters
        rw [ValueBindings.values_andThen, List.filterMap_map]
        exact congrArg (appendNew []) (List.filterMap_congr replaced)
    _ = appendNew [] ((forwardedParameters first).filterMap choose) := by
        rw [forwardedParameters, appendNew_filterMap, List.filterMap_filterMap]
    _ = forwardedParameters second := by
        rw [← keys, forwardedParameters, Table.filterMap_values nodup]

/-- The capability that is lost for want of parameters is lost once. -/
theorem capabilities_twice (definition : Definition) (keys : second.keys = forwardedParameters first) :
    (if (forwardedParameters second).isEmpty then
        (if (forwardedParameters first).isEmpty then
          definition.capabilities.erase .formalParameters
        else definition.capabilities).erase .formalParameters
      else if (forwardedParameters first).isEmpty then
        definition.capabilities.erase .formalParameters
      else definition.capabilities) =
      if (forwardedParameters second).isEmpty then
        definition.capabilities.erase .formalParameters
      else definition.capabilities := by
  by_cases closed : (forwardedParameters first).isEmpty = true
  · have none : second.values = [] := by
      have noKeys : second.keys = [] := keys.trans (List.isEmpty_iff.mp closed)
      have noEntries : second.entries = [] := List.map_eq_nil_iff.mp noKeys
      simp [Table.values, noEntries]
    have closedAgain : (forwardedParameters second).isEmpty = true := by
      simp [forwardedParameters, none, appendNew]
    simp only [closed, closedAgain, if_true, MemberSet.erase_erase]
  · simp only [closed, Bool.false_eq_true, if_false]

/-- Replacing the parameters of a definition, and then those of the copy, gives what the
composed bindings give, under the name and with the origin of the last replacement. -/
theorem substitutions_compose (usesOwn : definition.UsesOwn) (refersOwn : definition.RefersOwn)
    (isBound : ∀ parameter, definition.hasParameter parameter = true →
      first.contains parameter = true)
    (firstName secondName : String)
    (isBoundAgain : (definition.substitute firstName first).IsBoundBy second) :
    (definition.substitute firstName first).substitute secondName second =
      { definition.substitute secondName (first.andThen second) with
        decorations := { definition.decorations with substitutedFrom := some firstName } } := by
  have keys := isBoundAgain.keys_eq
  have attributes : ∀ declared ∈ definition.attributes,
      (declared.value.map (·.substitute first)).map (·.substitute second) =
        declared.value.map (·.substitute (first.andThen second)) := by
    intro declared member
    cases isValue : declared.value with
    | none => rfl
    | some value =>
        refine congrArg some (ValueBindings.substitute_andThen ?_)
        cases value with
        | reference parameter =>
            exact isBound parameter (refersOwn parameter ⟨declared, member, isValue⟩)
        | _ => rfl
  have components : ∀ component ∈ definition.components,
      (component.substitute first).substitute second =
        component.substitute (first.andThen second) := by
    intro component member
    refine component.substitute_substitute fun value among => ?_
    cases value with
    | reference parameter => exact isBound parameter (usesOwn parameter ⟨component, member, among⟩)
    | _ => rfl
  have capabilities := capabilities_twice definition keys
  unfold substitute
  simp only [List.map_map, Function.comp_def, forwardedParameters_andThen keys,
    List.isEmpty_map, capabilities]
  rw [List.map_congr_left components]
  congr 1
  exact List.map_congr_left fun declared member => by rw [attributes declared member]

/-- A definition whose attribute refers to one parameter, and whose sub-component to both, to
one of them inside a type argument. -/
def crossed : Definition :=
  { ofKind "a.D" .composite with
    parameters := [⟨"x", .generated⟩, ⟨"y", .generated⟩]
    attributes := [⟨"n", "int", some (.reference "x"), .generated, .none⟩]
    components := [⟨"c",
      some ⟨"a.G", [⟨some "p", .reference "y", .generated⟩],
        [⟨some "T", .definition
          ⟨"a.P", [⟨some "q", .reference "x", .generated⟩], [], .generated, none⟩, .generated⟩],
        .generated, some ⟨"a.G", some 0⟩⟩,
      none, .generated, .none, some ⟨"a.G", some 0⟩, false⟩] }

/-- The parameters are exchanged, and the exchanged ones are given numbers: each parameter gets
the number of the other. -/
theorem substitutions_compose_crossed :
    let exchange : ValueBindings := .ofList [("x", .reference "y"), ("y", .reference "x")]
    let numbers : ValueBindings := .ofList [("y", .number 1), ("x", .number 2)]
    crossed.UsesOwn ∧ crossed.RefersOwn ∧
      (∀ parameter, crossed.hasParameter parameter = true → exchange.contains parameter = true) ∧
      (crossed.substitute "a.D(x=y,y=x)" exchange).IsBoundBy numbers ∧
      exchange.andThen numbers = .ofList [("x", .number 1), ("y", .number 2)] ∧
      (crossed.substitute "a.D(x=y,y=x)" exchange).substitute "a.D(x=y,y=x)(y=1,x=2)" numbers =
        { crossed.substitute "a.D(x=y,y=x)(y=1,x=2)" (exchange.andThen numbers) with
          decorations := { crossed.decorations with
            substitutedFrom := some "a.D(x=y,y=x)" } } := by
  intro exchange numbers
  have usesOwn : crossed.UsesOwn := by decide
  have refersOwn : crossed.RefersOwn := by
    rintro parameter ⟨declared, member, isValue⟩
    cases List.mem_singleton.mp member
    cases isValue
    decide
  have isBound : ∀ parameter, crossed.hasParameter parameter = true →
      exchange.contains parameter = true := by
    intro parameter declared
    obtain ⟨formal, member, named⟩ := List.any_eq_true.mp declared
    cases eq_of_beq named
    revert formal
    decide
  have isBoundAgain : (crossed.substitute "a.D(x=y,y=x)" exchange).IsBoundBy numbers := by decide
  exact ⟨usesOwn, refersOwn, isBound, isBoundAgain, rfl,
    substitutions_compose usesOwn refersOwn isBound _ _ isBoundAgain⟩

end Definition

end Adl
