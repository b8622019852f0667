import Adl.Proofs.Annotation.Everywhere

namespace Adl

open Step Context

/-! Definitions that bear predefined annotations only. While they are loaded they come to bear
no others, and what is done for these after the checks is nothing but decoration. -/

/-- The typed annotations of an element are predefined. -/
def Annotations.ArePredefined (annotations : Annotations) : Prop :=
  ∀ built ∈ annotations.typed, built.IsPredefined

namespace Annotations

theorem survives_arePredefined : Survives fun _ annotations => annotations.ArePredefined where
  none _ _ member := nomatch member
  rebuilt _ _ _ := isPredefined_rebuilt
  attached _ _ predefined other member := by
    rcases List.mem_append.mp member with old | new
    · exact predefined other old
    · exact List.mem_singleton.mp new ▸ Annotation.isPredefined_singleton
  inherited _ predefined built member := predefined built (List.mem_filter.mp member).1
  union left right leftPredefined rightPredefined built member := by
    rcases addNew.mem Annotation.kind member with old | new
    · exact leftPredefined built old
    · exact rightPredefined built new

end Annotations

namespace Definition

/-- The typed annotations of the definition and of its elements are predefined. -/
structure IsOrdinary (definition : Definition) : Prop where
  own : definition.annotations.ArePredefined
  interfaces : ∀ interface ∈ definition.interfaces, interface.annotations.ArePredefined
  internalInterfaces : ∀ interface ∈ definition.internalInterfaces,
    interface.annotations.ArePredefined
  attributes : ∀ declared ∈ definition.attributes, declared.annotations.ArePredefined
  components : ∀ component ∈ definition.components, component.annotations.ArePredefined
  bindings : ∀ binding ∈ definition.bindings, binding.annotations.ArePredefined
  sources : ∀ source ∈ definition.sources, source.annotations.ArePredefined

/-- No typed annotations were built yet. -/
def IsUntyped (definition : Definition) : Prop :=
  definition.annotations.typed = [] ∧
    (∀ interface ∈ definition.interfaces, interface.annotations.typed = []) ∧
    (∀ interface ∈ definition.internalInterfaces, interface.annotations.typed = []) ∧
    (∀ declared ∈ definition.attributes, declared.annotations.typed = []) ∧
    (∀ component ∈ definition.components, component.annotations.typed = []) ∧
    (∀ binding ∈ definition.bindings, binding.annotations.typed = []) ∧
    ∀ source ∈ definition.sources, source.annotations.typed = []

instance (definition : Definition) : Decidable definition.IsUntyped :=
  inferInstanceAs (Decidable (_ ∧ _ ∧ _ ∧ _ ∧ _ ∧ _ ∧ _))

theorem IsUntyped.isOrdinary {definition : Definition} (untyped : definition.IsUntyped) :
    definition.IsOrdinary := by
  have empty : ∀ {annotations : Annotations}, annotations.typed = [] → annotations.ArePredefined :=
    fun none _ member => nomatch none ▸ member
  obtain ⟨own, interfaces, internalInterfaces, attributes, components, bindings, sources⟩ := untyped
  exact ⟨empty own, fun _ member => empty (interfaces _ member),
    fun _ member => empty (internalInterfaces _ member), fun _ member => empty (attributes _ member),
    fun _ member => empty (components _ member), fun _ member => empty (bindings _ member),
    fun _ member => empty (sources _ member)⟩

theorem isOrdinary_iff {definition : Definition} :
    definition.IsOrdinary ↔ definition.Everywhere fun _ annotations => annotations.ArePredefined :=
  ⟨fun ⟨own, interfaces, internalInterfaces, attributes, components, bindings, sources⟩ =>
      ⟨own, interfaces, internalInterfaces, attributes, components, bindings, sources⟩,
    fun ⟨own, interfaces, internalInterfaces, attributes, components, bindings, sources⟩ =>
      ⟨own, interfaces, internalInterfaces, attributes, components, bindings, sources⟩⟩

theorem IsOrdinary.at {definition : Definition} (ordinary : definition.IsOrdinary) {path : NodePath}
    {annotations : Annotations} (found : definition.annotationsAt? path = some annotations) :
    annotations.ArePredefined :=
  (isOrdinary_iff.mp ordinary).at found

theorem IsOrdinary.edits {original changed : Definition} (edits : original.Edits changed)
    (ordinary : original.IsOrdinary) : changed.IsOrdinary :=
  isOrdinary_iff.mpr ((isOrdinary_iff.mp ordinary).edits Annotations.survives_arePredefined edits)

end Definition

theorem FrontEnd.preserves_isOrdinary {frontEnd : FrontEnd}
    (parses : ∀ definition, frontEnd.Parses definition → definition.IsOrdinary) :
    frontEnd.Preserves Definition.IsOrdinary :=
  (funext fun _ => propext Definition.isOrdinary_iff : Definition.IsOrdinary = _) ▸
    Annotations.survives_arePredefined.preserves fun definition parsed =>
      Definition.isOrdinary_iff.mp (parses definition parsed)

/-! ## After the checks -/

/-- A definition differs from another in what stages recorded about it at most. -/
def Definition.Decorates (original changed : Definition) : Prop :=
  ∃ decorations, changed = { original with decorations }

namespace AnnotationRegistry

/-- What a registered kind builds from some arguments. -/
theorem exists_of_build {registry : AnnotationRegistry} {node : AnnotationNode} {built : Annotation}
    (builds : registry.build node = .ok built) :
    ∃ descriptor arguments, registry.descriptor? node.typeName = some descriptor ∧
      descriptor.build arguments = .ok built := by
  unfold build at builds
  split at builds
  · exact nomatch builds
  · rename_i descriptor found
    simp only [bind, Except.bind, pure, Except.pure] at builds
    split at builds
    · exact nomatch builds
    · split at builds
      · exact nomatch builds
      · split at builds
        · rename_i made
          cases builds
          exact ⟨descriptor, _, found, made⟩
        · exact nomatch builds

theorem eq_of_plain {built made : Annotation} {processor : Option Processor}
    {arguments : AnnotationArguments} (builds : (plain made processor).build arguments = .ok built) :
    built = made :=
  (Except.ok.inj builds).symm

theorem exists_of_flagged {built : Annotation} {parameter : String} {make : Bool → Annotation}
    {arguments : AnnotationArguments} (builds : (flagged parameter make).build arguments = .ok built) :
    ∃ flag, built = make flag := by
  simp only [flagged, bind, Except.bind, pure, Except.pure] at builds
  split at builds
  · exact nomatch builds
  · rename_i flag _
    exact ⟨flag, (Except.ok.inj builds).symm⟩

end AnnotationRegistry

/-- The annotations that there can be, each with its flag. -/
theorem Annotation.IsPredefined.cases {built : Annotation} (isPredefined : built.IsPredefined) :
    built = .override ∨ built = .singleton ∨ built = .lifeCycleController ∨
      (∃ allowNone, built = .attributeController allowNone) ∨
      (∃ allowNone, built = .bindingController allowNone) ∨
      built = .contentController ∨ built = .cloneable ∨ built = .dump := by
  obtain ⟨node, builds⟩ := isPredefined
  obtain ⟨descriptor, arguments, found, made⟩ := AnnotationRegistry.exists_of_build builds
  have member := AnnotationRegistry.mem_predefinedKinds found
  simp only [AnnotationRegistry.predefinedKinds, List.mem_cons, List.not_mem_nil, or_false] at member
  rcases member with rfl | rfl | rfl | rfl | rfl | rfl | rfl | rfl
  · exact .inl (AnnotationRegistry.eq_of_plain made)
  · exact .inr (.inl (AnnotationRegistry.eq_of_plain made))
  · exact .inr (.inr (.inl (AnnotationRegistry.eq_of_plain made)))
  · exact .inr (.inr (.inr (.inl (AnnotationRegistry.exists_of_flagged made))))
  · exact .inr (.inr (.inr (.inr (.inl (AnnotationRegistry.exists_of_flagged made)))))
  · exact .inr (.inr (.inr (.inr (.inr (.inl (AnnotationRegistry.eq_of_plain made))))))
  · exact .inr (.inr (.inr (.inr (.inr (.inr (.inl (AnnotationRegistry.eq_of_plain made)))))))
  · exact .inr (.inr (.inr (.inr (.inr (.inr (.inr (AnnotationRegistry.eq_of_plain made)))))))

namespace AnnotationRegistry

/-- Two kinds are looked at after the checks. -/
theorem eq_of_afterChecking {built : Annotation} (isPredefined : built.IsPredefined)
    (due : built.phases.contains .afterChecking = true) :
    built = .singleton ∨ built = .dump := by
  have early : (MemberSet.single Phase.afterExtends).contains .afterChecking = false := by decide
  rcases isPredefined.cases with rfl | rfl | rfl | ⟨_, rfl⟩ | ⟨_, rfl⟩ | rfl | rfl | rfl
  · exact absurd due (by decide)
  · exact .inl rfl
  · exact absurd due (by decide)
  · cases early.symm.trans due
  · cases early.symm.trans due
  · cases early.symm.trans due
  · cases early.symm.trans due
  · exact .inr rfl

theorem processor?_singleton :
    predefined.processor? Annotation.singletonKind = some Singleton.process := by
  rfl

theorem processor?_dump :
    predefined.processor? Annotation.dump.kind = some fun _ _ _ _ => return none := by
  rfl

variable {original definition : Definition} {context : Context}

theorem agree_settle (definition : Definition) (context : Context) :
    Agree reporting context (Singleton.settle definition) (Singleton.settle definition)
      fun changed _ => definition.Decorates (changed.getD definition) := by
  refine .read rfl (.bind (Loading.agree_recordAll _) ?_)
  intro _ reached _ _ _
  split
  · exact .pure trivial ⟨definition.decorations, rfl⟩
  · exact .pure trivial ⟨_, rfl⟩

/-- After the checks a predefined annotation has a definition decorated. -/
theorem agree_runProcessor_last {built : Annotation} (isPredefined : built.IsPredefined)
    (due : built.phases.contains .afterChecking = true) (path : NodePath)
    (decorates : original.Decorates definition) :
    Agree reporting context (predefined.runProcessor .afterChecking path definition built)
      (predefined.runProcessor .afterChecking path definition built)
      fun changed _ => original.Decorates changed := by
  have further : ∀ {processor : Processor}, predefined.processor? built.kind = some processor →
      Agree reporting context (processor built path definition .afterChecking)
        (processor built path definition .afterChecking)
        (fun changed _ => definition.Decorates (changed.getD definition)) →
      Agree reporting context (predefined.runProcessor .afterChecking path definition built)
        (predefined.runProcessor .afterChecking path definition built)
        fun changed _ => original.Decorates changed := by
    intro processor found agree
    unfold runProcessor
    rw [found]
    refine .bind agree ?_
    rintro changed reached _ _ ⟨decorations, same⟩
    obtain ⟨before, rfl⟩ := decorates
    exact .pure trivial ⟨decorations, same⟩
  rcases eq_of_afterChecking isPredefined due with rfl | rfl
  · exact further processor?_singleton (agree_settle definition context)
  · exact further processor?_dump (.pure trivial ⟨definition.decorations, rfl⟩)

theorem agree_processDefinition_last (ordinary : definition.IsOrdinary) :
    Agree reporting context (predefined.processDefinition .afterChecking definition)
      (predefined.processDefinition .afterChecking definition)
      fun changed _ => definition.Decorates changed := by
  refine .foldlM (fun (changed : Definition) _ => definition.Decorates changed) trivial
    ⟨definition.decorations, rfl⟩ ?_
  rintro path _ draft reached _ ⟨decorations, rfl⟩
  refine .foldlM (fun (changed : Definition) _ => definition.Decorates changed) trivial
    ⟨decorations, rfl⟩ ?_
  intro built member changed later _ decorates
  obtain ⟨among, due⟩ := List.mem_filter.mp member
  refine agree_runProcessor_last ?_ due path decorates
  cases found : definition.annotationsAt? path with
  | none =>
      have absent : { definition with decorations }.annotationsAt? path = none :=
        (by cases path <;> rfl : { definition with decorations }.annotationsAt? path =
          definition.annotationsAt? path).trans found
      rw [absent] at among
      exact nomatch among
  | some annotations =>
      have present : { definition with decorations }.annotationsAt? path = some annotations :=
        (by cases path <;> rfl : { definition with decorations }.annotationsAt? path =
          definition.annotationsAt? path).trans found
      rw [present] at among
      exact ordinary.at found built among

variable {name : String} {id : DefinitionId}

/-- The last stage decorates an ordinary definition. -/
theorem agree_processStored_last (making : Making name id context)
    (ordinary : (context.definition id).IsOrdinary) :
    Agree (editing name id) context (predefined.processStored .afterChecking id)
      (predefined.processStored .afterChecking id)
      fun _ reached => (context.definition id).Decorates (reached.definition id) := by
  refine .read rfl ?_
  split
  · rename_i due
    have named := making.names.named (isDue .afterChecking) (fun _ => rfl) due
    refine (Loading.agree_replace_edited
      (fun changed _ => (context.definition id).Decorates changed) making named ?_).mono ?_
    · exact (agree_processDefinition isHarmless_predefined (.refl _)).and
        (agree_processDefinition_last ordinary)
    · rintro _ reached _ _ ⟨before, changed, -, decorates, -, stored⟩
      exact stored ▸ decorates
  · exact .pure making ⟨(context.definition id).decorations, rfl⟩

end AnnotationRegistry

end Adl
