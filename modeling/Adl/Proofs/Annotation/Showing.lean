import Adl.Proofs.Annotation.Building
import Adl.Proofs.Definition.Retention
import Adl.Proofs.Loading.Instances

namespace Adl

open Step Context

/-! Definitions that show what they are decorated as. Where annotations are written by simple names
they are handed on whole, so that a definition that is decorated as a singleton bears the
annotation too. Neither copies nor processors change that. -/

/-! ## Annotations -/

/-- An annotation is accepted only where the element admits it. -/
theorem AnnotationRegistry.admitted_of_mem_accepted {registry : AnnotationRegistry} {target : Target}
    {taken : List Annotation} {nodes : List AnnotationNode} {built : Annotation}
    (member : built ∈ registry.accepted target taken nodes) :
    built ∈ taken ∨ built.targets.contains target = true := by
  induction nodes generalizing taken with
  | nil => exact .inl member
  | cons node rest induction =>
      unfold accepted at member
      split at member
      · exact induction member
      · split at member
        · rename_i admitted
          rcases induction member with old | new
          · rcases List.mem_append.mp old with old | new
            · exact .inl old
            · exact .inr (List.mem_singleton.mp new ▸ (Bool.and_eq_true_iff.mp admitted).1)
          · exact .inr new
        · exact induction member

/-- Nothing but a definition is a singleton. -/
theorem Annotation.eq_definition_of_singleton {target : Target}
    (admitted : Annotation.singleton.targets.contains target = true) : target = .definition := by
  cases target with
  | definition => rfl
  | _ => exact absurd admitted (by decide)

namespace Annotations

/-- Typed annotations are predefined and bear the names of nodes, and where there is a singleton
among them, the element is a definition. -/
structure ShowsSingleton (target : Target) (annotations : Annotations) : Prop where
  named : annotations.AreNamed
  predefined : annotations.ArePredefined
  own : .singleton ∈ annotations.typed → target = .definition

theorem survives_showsSingleton : Survives ShowsSingleton where
  none target := ⟨survives_areNamed.none target, survives_arePredefined.none target, nofun⟩
  rebuilt target annotations shows :=
    ⟨survives_areNamed.rebuilt target annotations shows.named, isPredefined_rebuilt,
      fun member => Annotation.eq_definition_of_singleton
        ((AnnotationRegistry.admitted_of_mem_accepted member).resolve_left nofun)⟩
  attached annotations isNew shows :=
    ⟨survives_areNamed.attached annotations isNew shows.named,
      survives_arePredefined.attached annotations isNew shows.predefined, fun _ => rfl⟩
  inherited annotations shows :=
    ⟨survives_areNamed.inherited annotations shows.named,
      survives_arePredefined.inherited annotations shows.predefined, fun _ => rfl⟩
  union left right leftShows rightShows :=
    ⟨survives_areNamed.union left right leftShows.named rightShows.named,
      survives_arePredefined.union left right leftShows.predefined rightShows.predefined,
      fun _ => rfl⟩

theorem AreNamed.exists_node {annotations : Annotations} {kind : String}
    (named : annotations.AreNamed) (has : annotations.has kind = true) :
    ∃ node ∈ annotations.nodes, node.typeName = kind := by
  rcases has_iff.mp has with ⟨built, member, rfl⟩ | found
  · exact named.named built member
  · exact found

end Annotations

/-! ## Definitions -/

/-- What is decorated as a singleton is annotated as one. -/
structure Definition.ShowsSingleton (definition : Definition) : Prop where
  everywhere : definition.Everywhere Annotations.ShowsSingleton
  decorated : definition.decorations.singleton = true → definition.IsSingle

namespace Definition

variable {original changed definition : Definition}

/-- Nodes are kept, and with them what they name. -/
theorem IsSingle.retained (isSingle : original.IsSingle) (named : original.annotations.AreNamed)
    (retains : changed.Retains original) : changed.IsSingle := by
  obtain ⟨node, among, named⟩ := named.exists_node isSingle
  exact Annotations.has_iff.mpr (.inr ⟨node, retains.annotations among, named⟩)

namespace ShowsSingleton

theorem default : (default : Definition).ShowsSingleton :=
  ⟨.default Annotations.survives_showsSingleton, nofun⟩

theorem blank (extendsMerged : Bool) : (blank extendsMerged).ShowsSingleton :=
  ⟨⟨Annotations.survives_showsSingleton.none _, nofun, nofun, nofun, nofun, nofun, nofun⟩, nofun⟩

/-- A definition that is annotated by simple names, and with nothing built yet. -/
theorem of_plain (plain : definition.IsPlainlyAnnotated)
    (decorated : definition.decorations.singleton = true → definition.IsSingle) :
    definition.ShowsSingleton := by
  refine ⟨(plain.areNamed.and plain.untyped.everywhere).mono ?_, decorated⟩
  rintro target annotations ⟨named, isEmpty⟩
  refine ⟨named, fun _ member => ?_, fun member => ?_⟩
  · exact nomatch isEmpty ▸ member
  · exact nomatch isEmpty ▸ member

theorem single (shows : original.ShowsSingleton) (retains : changed.Retains original)
    (isSingle : original.IsSingle) : changed.IsSingle :=
  isSingle.retained shows.everywhere.own.named retains

theorem edits (shows : original.ShowsSingleton) (edits : original.Edits changed)
    (decorated : changed.decorations.singleton = true →
      original.decorations.singleton = true ∨ changed.IsSingle) : changed.ShowsSingleton where
  everywhere := shows.everywhere.edits Annotations.survives_showsSingleton edits
  decorated isDecorated :=
    (decorated isDecorated).elim (fun was => shows.single edits.retains (shows.decorated was)) id

theorem edits_alike (shows : original.ShowsSingleton) (edits : original.Edits changed)
    (alike : changed.decorations.singleton = original.decorations.singleton) :
    changed.ShowsSingleton :=
  shows.edits edits fun isDecorated => .inl (alike ▸ isDecorated)

/-- Only the annotations of sub-components count. -/
theorem components (shows : definition.ShowsSingleton) {components : List Component}
    (same : components.map (·.annotations) = definition.components.map (·.annotations)) :
    ShowsSingleton { definition with components } := by
  refine ⟨{ shows.everywhere with components := fun component member => ?_ }, shows.decorated⟩
  obtain ⟨before, among, annotated⟩ := List.mem_map.mp (same ▸ List.mem_map_of_mem member)
  exact annotated ▸ shows.everywhere.components before among

theorem merged {child parent : Definition} (own : child.ShowsSingleton)
    (handed : parent.Everywhere Annotations.ShowsSingleton) :
    (Inheritance.merged child parent).ShowsSingleton where
  everywhere := own.everywhere.merged Annotations.survives_showsSingleton handed
  decorated isDecorated := own.single (child.retains_merged parent) (own.decorated isDecorated)

theorem copy (shows : definition.ShowsSingleton) (name : String) (bindings : ValueBindings) :
    (definition.substitute name bindings).ShowsSingleton :=
  ⟨shows.everywhere.copy name bindings, shows.decorated⟩

theorem bare {request : InstanceRequest} {context : Context}
    (shows : (context.definition request.generic).ShowsSingleton) (name : String) :
    (request.bare context name).ShowsSingleton :=
  ⟨shows.everywhere.bare name, shows.decorated⟩

end ShowsSingleton

end Definition

/-! ## Processors -/

namespace Singleton

variable {definition : Definition}

theorem agree_settle_shows (shows : definition.ShowsSingleton) (isSingle : definition.IsSingle)
    (context : Context) : Agree reporting context (settle definition) (settle definition)
      fun changed _ => (changed.getD definition).ShowsSingleton := by
  refine .read rfl (.bind (Loading.agree_recordAll _) ?_)
  intro _ reached _ _ _
  split
  · exact .pure trivial shows
  · exact .pure trivial ⟨{ shows.everywhere with }, fun _ => isSingle⟩

theorem agree_spread_shows (shows : definition.ShowsSingleton) (node : NodePath) (announced : Bool)
    (context : Context) :
    Agree reporting context (spread definition node announced) (spread definition node announced)
      fun changed _ => (changed.getD definition).ShowsSingleton := by
  unfold spread
  split
  · exact .pure trivial shows
  · rename_i isNew
    have attached := shows.edits_alike (.of_edit (.attached definition (by simpa using isNew))) rfl
    cases announced with
    | true => exact .bind (Loading.agree_warn _ _ _) fun _ _ _ _ _ => .pure trivial attached
    | false => exact .pure trivial attached

/-- Settling is for what is annotated, spreading for any definition. -/
theorem agree_process_shows (shows : definition.ShowsSingleton) {phase : Phase}
    (settles : phase = .onSubComponent ∨ phase = .onTemplateSubComponent ∨ definition.IsSingle)
    (built : Annotation) (path : NodePath) (context : Context) :
    Agree reporting context (process built path definition phase)
      (process built path definition phase)
      fun changed _ => (changed.getD definition).ShowsSingleton := by
  have isSingle (other : phase ≠ .onSubComponent) (later : phase ≠ .onTemplateSubComponent) :
      definition.IsSingle :=
    (settles.resolve_left other).resolve_left later
  cases phase with
  | afterChecking => exact agree_settle_shows shows (isSingle nofun nofun) context
  | afterTemplateInstantiate => exact agree_settle_shows shows (isSingle nofun nofun) context
  | onSubComponent => exact agree_spread_shows shows path true context
  | onTemplateSubComponent => exact agree_spread_shows shows path false context
  | afterParsing | afterExtends => exact .pure trivial shows

end Singleton

namespace AnnotationRegistry

variable {definition : Definition} {context : Context} {phase : Phase}

/-- Only singletons are processed as such. -/
theorem eq_of_processor? {built : Annotation} (isPredefined : built.IsPredefined)
    {processor : Processor} (found : predefined.processor? built.kind = some processor) :
    built = .singleton ∧ processor = Singleton.process ∨ processor = Control.process ∨
      processor = fun _ _ _ _ => return none := by
  have control (known : predefined.processor? built.kind = some Control.process) :
      processor = Control.process :=
    Option.some.inj (found.symm.trans known)
  rcases isPredefined.cases with rfl | rfl | rfl | ⟨allowNone, rfl⟩ | ⟨allowNone, rfl⟩ | rfl | rfl |
    rfl
  · exact nomatch (show none = some processor from found)
  · exact .inl ⟨rfl, Option.some.inj (found.symm.trans processor?_singleton)⟩
  · exact .inr (.inl (control rfl))
  · exact .inr (.inl (control (by cases allowNone <;> rfl)))
  · exact .inr (.inl (control (by cases allowNone <;> rfl)))
  · exact .inr (.inl (control rfl))
  · exact .inr (.inl (control rfl))
  · exact .inr (.inr (Option.some.inj (found.symm.trans processor?_dump)))

theorem agree_runProcessor_shows {built : Annotation} (isPredefined : built.IsPredefined)
    (shows : definition.ShowsSingleton) (settles : built = .singleton →
      phase = .onSubComponent ∨ phase = .onTemplateSubComponent ∨ definition.IsSingle)
    (path : NodePath) (context : Context) :
    Agree reporting context (predefined.runProcessor phase path definition built)
      (predefined.runProcessor phase path definition built)
      fun changed _ => changed.ShowsSingleton := by
  unfold runProcessor
  split
  · exact .fail trivial (LoadError.isGrave_internal _)
  · rename_i processor found
    have agree : Agree reporting context (processor built path definition phase)
        (processor built path definition phase)
        fun changed _ => (changed.getD definition).ShowsSingleton := by
      rcases eq_of_processor? isPredefined found with ⟨isSingleton, rfl⟩ | rfl | rfl
      · exact Singleton.agree_process_shows shows (settles isSingleton) built path context
      · refine ((Control.isHarmless_process built path definition phase context).and
          (Control.agree_process_marked built path definition phase context)).mono ?_
        exact fun _ _ _ _ ⟨edits, alike⟩ => shows.edits_alike edits alike.singleton
      · exact .pure trivial shows
    exact .bind agree fun _ _ _ _ shows => .pure trivial shows

/-- What is due for an element was built there, and if it is a singleton the element is the
definition. -/
theorem agree_processElement_shows (shows : definition.ShowsSingleton) (path : NodePath)
    (context : Context) :
    Agree reporting context (predefined.processElement phase definition path)
      (predefined.processElement phase definition path)
      fun changed _ => changed.ShowsSingleton := by
  have among : ∀ built ∈ due phase ((definition.annotationsAt? path).getD .none),
      built.IsPredefined ∧ (built = .singleton → definition.IsSingle) := by
    intro built member
    have typed := (List.mem_filter.mp member).1
    cases found : definition.annotationsAt? path with
    | none =>
        rw [found] at typed
        exact nomatch typed
    | some annotations =>
        rw [found] at typed
        have shown := shows.everywhere.at found
        refine ⟨shown.predefined built typed, ?_⟩
        rintro rfl
        cases path with
        | definition =>
            cases found
            exact Annotations.has_iff.mpr (.inl ⟨_, typed, rfl⟩)
        | _ => exact nomatch shown.own typed
  refine Agree.mono (.foldlM (fun (changed : Definition) _ =>
    definition.Edits changed ∧ changed.ShowsSingleton) trivial ⟨.refl definition, shows⟩ ?_)
    fun _ _ _ _ holds => holds.2
  rintro built member changed reached - ⟨edits, shown⟩
  obtain ⟨isPredefined, isSingle⟩ := among built member
  refine (agree_runProcessor isHarmless_predefined path built edits).and
    (agree_runProcessor_shows isPredefined shown (fun same => .inr (.inr ?_)) path reached)
  exact shows.single edits.retains (isSingle same)

theorem agree_processDefinition_shows (shows : definition.ShowsSingleton) (context : Context) :
    Agree reporting context (predefined.processDefinition phase definition)
      (predefined.processDefinition phase definition)
      fun changed _ => changed.ShowsSingleton :=
  .foldlM (fun (changed : Definition) _ => changed.ShowsSingleton) trivial shows
    fun path _ _ reached _ shows => agree_processElement_shows shows path reached

/-- What sub-components bring spreads to the definition. -/
theorem agree_processSubComponents_shows
    (all : ∀ id, (context.definition id).ShowsSingleton) (shows : definition.ShowsSingleton)
    (isSub : phase = .onSubComponent ∨ phase = .onTemplateSubComponent) (indices : List Nat) :
    Agree reporting context (predefined.processSubComponents phase definition indices)
      (predefined.processSubComponents phase definition indices)
      fun changed _ => changed.ShowsSingleton := by
  refine Agree.mono (.foldlM (fun (changed : Definition) (reached : Context) =>
    changed.ShowsSingleton ∧ ∀ id, (reached.definition id).ShowsSingleton) trivial ⟨shows, all⟩ ?_)
    fun _ _ _ _ holds => holds.1
  rintro index - changed reached - ⟨shown, allReached⟩
  unfold processSubComponent
  split
  · exact .pure trivial ⟨shown, allReached⟩
  · rename_i id _
    refine .read rfl (Agree.mono (.foldlM (fun (changed : Definition) _ => changed.ShowsSingleton)
      trivial shown ?_) fun _ later _ reports holds =>
        ⟨holds, fun id => reports.definition id ▸ allReached id⟩)
    intro built member changed later _ shown
    exact agree_runProcessor_shows
      ((allReached id).everywhere.own.predefined built (List.mem_filter.mp member).1) shown
      (fun _ => isSub.imp_right .inl) _ later

end AnnotationRegistry

end Adl
