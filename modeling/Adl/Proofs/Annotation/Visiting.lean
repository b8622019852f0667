import Adl.Proofs.Annotation.Processing

namespace Adl

open Step

/-! Which processors are called while annotations are processed. A definition may be replaced at
every call, and the elements that are visited are those of the first. Each has one turn, at which
the annotations count that it has then: as long as processors only append, these are the annotations
of the start and those that were appended to the element before its turn. -/

/-- Processors are called for some annotations at some positions, one after the other. Each is given
the definition that the one before it left. -/
inductive Runs (registry : AnnotationRegistry) (phase : Phase) :
    List (NodePath × Annotation) → Definition × Context → Definition × Context → Prop where
  | done (state : Definition × Context) : Runs registry phase [] state state
  | next {path : NodePath} {built : Annotation} {rest : List (NodePath × Annotation)}
      {before : Definition} {context reached : Context} {processor : Processor}
      {replacement : Option Definition} {last : Definition × Context}
      (found : registry.processor? built.kind = some processor)
      (ran : processor built path before phase context = (.ok replacement, reached))
      (others : Runs registry phase rest (replacement.getD before, reached) last) :
      Runs registry phase ((path, built) :: rest) (before, context) last

namespace Runs

open AnnotationRegistry (runProcessor_eq_ok_iff)

variable {registry : AnnotationRegistry} {phase : Phase}
  {first second : List (NodePath × Annotation)} {start middle last : Definition × Context}

theorem append (runs : Runs registry phase first start middle)
    (others : Runs registry phase second middle last) :
    Runs registry phase (first ++ second) start last := by
  induction runs with
  | done => exact others
  | next found ran _ induction => exact .next found ran (induction others)

/-- The calls are made one after the other, and nothing else is done. -/
theorem iff_foldlM {calls : List (NodePath × Annotation)} :
    Runs registry phase calls start last ↔
      calls.foldlM (fun definition call => registry.runProcessor phase call.1 definition call.2)
        start.1 start.2 = (.ok last.1, last.2) := by
  constructor
  · intro runs
    induction runs with
    | done => rfl
    | next found ran _ induction =>
        rw [List.foldlM_cons, bind_of_ok (runProcessor_eq_ok_iff.mpr ⟨_, _, found, ran, rfl⟩)]
        exact induction
  · intro folds
    induction calls generalizing start with
    | nil =>
        obtain ⟨definition, context⟩ := start
        obtain ⟨after, reached⟩ := last
        cases folds
        exact .done (definition, context)
    | cons call rest induction =>
        rw [List.foldlM_cons] at folds
        obtain ⟨after, reached, ran, others⟩ := ok_of_bind folds
        obtain ⟨processor, replacement, found, processed, rfl⟩ := runProcessor_eq_ok_iff.mp ran
        exact .next found processed (induction others)

end Runs

/-! ## Walks -/

/-- A way to visit elements: where each is, and which annotations are looked at when it is its
turn. -/
structure Walk (Element : Type) where
  position : Element → NodePath
  annotations? : Element → Definition × Context → Option Annotations

namespace Walk

/-- The elements of a definition have annotations of their own. -/
def elements : Walk NodePath where
  position := id
  annotations? path state := state.1.annotationsAt? path

/-- For a sub-component the annotations of its definition count. -/
def subComponents : Walk Nat where
  position := .component
  annotations? index state := (state.1.components[index]?.bind (·.resolvedId?)).bind fun id =>
    (state.2.arena[id]?).map (·.annotations)

variable {Element : Type} (walk : Walk Element) (registry : AnnotationRegistry) (phase : Phase)

def due (element : Element) (state : Definition × Context) : List Annotation :=
  AnnotationRegistry.due phase ((walk.annotations? element state).getD .none)

/-- What is called for an element if it has its turn in this state. -/
def callsAt (element : Element) (state : Definition × Context) : List (NodePath × Annotation) :=
  (walk.due phase element state).map (walk.position element, ·)

/-- The annotations of the phase, element by element and in order. -/
def calls (visited : List Element) (state : Definition × Context) : List (NodePath × Annotation) :=
  visited.flatMap (walk.callsAt phase · state)

/-- Elements have their turns one after the other, each in the state that the one before it left,
and for each of them processors are called for what is due of it in that state. -/
inductive Visits : List (Element × (Definition × Context)) →
    Definition × Context → Definition × Context → Prop where
  | done (state : Definition × Context) : Visits [] state state
  | next {element : Element} {before middle last : Definition × Context}
      {rest : List (Element × (Definition × Context))}
      (runs : Runs registry phase (walk.callsAt phase element before) before middle)
      (others : Visits rest middle last) : Visits ((element, before) :: rest) before last

/-- These elements have one turn each, in this order, from the first state to the last one. What was
due of an element at the start comes first at its turn; if nothing else is due at any turn, then the
calls are those that the start asks for. -/
structure TakesTurns (visited : List Element) (turns : List (Element × (Definition × Context)))
    (start last : Definition × Context) : Prop where
  inOrder : turns.map (·.1) = visited
  visits : walk.Visits registry phase turns start last
  fromStart : ∀ turn ∈ turns, walk.due phase turn.1 start <+: walk.due phase turn.1 turn.2
  asAtStart : (∀ turn ∈ turns, walk.due phase turn.1 turn.2 = walk.due phase turn.1 start) →
    Runs registry phase (walk.calls phase visited start) start last

/-- Each of these elements that is there stays where it is, with what is due of its annotations;
more may be due after that. -/
def Keeps (visited : List Element) (before after : Definition × Context) : Prop :=
  ∀ element ∈ visited, ∀ annotations, walk.annotations? element before = some annotations →
    ∃ kept, walk.annotations? element after = some kept ∧
      AnnotationRegistry.due phase annotations <+: AnnotationRegistry.due phase kept

/-- A processor succeeds where something holds, which it preserves, and what it leaves keeps these
elements. -/
def Succeeds (Holds : Definition × Context → Prop) (processor : Processor) (built : Annotation)
    (path : NodePath) (kept : List Element) : Prop :=
  ∀ before context, Holds (before, context) → ∃ replacement reached,
    processor built path before phase context = (.ok replacement, reached) ∧
      Holds (replacement.getD before, reached) ∧
      walk.Keeps phase kept (before, context) (replacement.getD before, reached)

/-- There is a processor for all that may be due of an element, and it keeps the elements that are
still to come. -/
def Serves (Holds : Definition × Context → Prop) (visited : List Element) : Prop :=
  ∀ earlier element later, visited = earlier ++ element :: later →
    ∀ state, Holds state → ∀ built ∈ walk.due phase element state, ∃ processor,
      registry.processor? built.kind = some processor ∧
        walk.Succeeds phase Holds processor built (walk.position element) later

/-- A processor that always succeeds and only appends: all elements stay where they are, with the
typed annotations that they have. -/
def Appends (processor : Processor) : Prop :=
  ∀ built path before phase context, ∃ replacement reached,
    processor built path before phase context = (.ok replacement, reached) ∧
      ∀ element annotations, walk.annotations? element (before, context) = some annotations →
        ∃ kept, walk.annotations? element (replacement.getD before, reached) = some kept ∧
          annotations.typed <+: kept.typed

variable {walk registry phase} {Holds : Definition × Context → Prop}
  {visited later : List Element} {element : Element}
  {turns : List (Element × (Definition × Context))}
  {start before middle after last : Definition × Context}

theorem Visits.runs (visits : walk.Visits registry phase turns start last) :
    Runs registry phase (turns.flatMap fun turn => walk.callsAt phase turn.1 turn.2) start last := by
  induction visits with
  | done state => exact .done state
  | next runs _ induction => exact runs.append induction

namespace Keeps

theorem refl (visited : List Element) (state : Definition × Context) :
    walk.Keeps phase visited state state :=
  fun _ _ annotations found => ⟨annotations, found, List.prefix_refl _⟩

theorem trans (first : walk.Keeps phase visited before middle)
    (second : walk.Keeps phase visited middle after) : walk.Keeps phase visited before after := by
  intro element member annotations found
  obtain ⟨kept, isKept, more⟩ := first element member annotations found
  obtain ⟨last, isLast, moreLast⟩ := second element member kept isKept
  exact ⟨last, isLast, more.trans moreLast⟩

theorem mono (keeps : walk.Keeps phase visited before after) (subset : later ⊆ visited) :
    walk.Keeps phase later before after :=
  fun element member => keeps element (subset member)

theorem due_prefix (keeps : walk.Keeps phase visited before after) (member : element ∈ visited) :
    walk.due phase element before <+: walk.due phase element after := by
  unfold due
  cases found : walk.annotations? element before with
  | none => exact List.nil_prefix
  | some annotations =>
      obtain ⟨kept, isKept, more⟩ := keeps element member annotations found
      rw [isKept]
      exact more

end Keeps

theorem Appends.succeeds {processor : Processor} {built : Annotation} {path : NodePath}
    (appends : walk.Appends processor) (kept : List Element)
    (preserves : ∀ before context replacement reached, Holds (before, context) →
      processor built path before phase context = (.ok replacement, reached) →
        Holds (replacement.getD before, reached)) :
    walk.Succeeds phase Holds processor built path kept := by
  intro before context holds
  obtain ⟨replacement, reached, ran, more⟩ := appends built path before phase context
  refine ⟨replacement, reached, ran, preserves _ _ _ _ holds ran, ?_⟩
  intro element _ annotations found
  obtain ⟨after, isAfter, extends'⟩ := more element annotations found
  exact ⟨after, isAfter, extends'.filter _⟩

/-- All calls at one element run through, and the elements that are still to come are kept. -/
theorem exists_runs_of_due {path : NodePath} {built : List Annotation}
    (serves : ∀ one ∈ built, ∃ processor, registry.processor? one.kind = some processor ∧
      walk.Succeeds phase Holds processor one path later) (holds : Holds before) :
    ∃ after, Runs registry phase (built.map (path, ·)) before after ∧ Holds after ∧
      walk.Keeps phase later before after := by
  induction built generalizing before with
  | nil => exact ⟨before, .done before, holds, .refl later before⟩
  | cons first rest induction =>
      obtain ⟨processor, found, succeeds⟩ := serves first List.mem_cons_self
      obtain ⟨replacement, reached, ran, stillHolds, keeps⟩ := succeeds before.1 before.2 holds
      obtain ⟨after, runs, holdsAfter, keepsAfter⟩ :=
        induction (fun one member => serves one (List.mem_cons_of_mem _ member)) stillHolds
      exact ⟨after, .next found ran runs, holdsAfter, keeps.trans keepsAfter⟩

/-- Elements that are visited one after the other have their turns. What was due at the start of
those still to come is kept by whatever is done for the elements before them. -/
theorem exists_visits (visit : Definition → Element → Loading Definition)
    (visits : ∀ definition element context, visit definition element context =
      (walk.due phase element (definition, context)).foldlM
        (registry.runProcessor phase (walk.position element)) definition context)
    (serves : walk.Serves registry phase Holds visited)
    (holds : Holds before) (keeps : walk.Keeps phase visited start before) :
    ∃ (after : Definition × Context) (turns : List (Element × (Definition × Context))),
      visited.foldlM visit before.1 before.2 = (.ok after.1, after.2) ∧
        turns.map (·.1) = visited ∧ walk.Visits registry phase turns before after ∧
        ∀ turn ∈ turns, walk.due phase turn.1 start <+: walk.due phase turn.1 turn.2 := by
  induction visited generalizing before with
  | nil => exact ⟨before, [], rfl, rfl, .done before, fun _ member => nomatch member⟩
  | cons element later induction =>
      obtain ⟨middle, runs, stillHolds, kept⟩ :=
        exists_runs_of_due (serves [] element later rfl before holds) holds
      obtain ⟨after, turns, others, inOrder, visited, fromStart⟩ := induction
        (fun earlier other rest split => serves (element :: earlier) other rest (split ▸ rfl))
        stillHolds ((keeps.mono (List.subset_cons_self _ _)).trans kept)
      refine ⟨after, (element, before) :: turns, ?_, congrArg (element :: ·) inOrder,
        .next runs visited, List.forall_mem_cons.mpr ⟨keeps.due_prefix List.mem_cons_self, fromStart⟩⟩
      have called := Runs.iff_foldlM.mp runs
      rw [List.foldlM_map, ← visits] at called
      rw [List.foldlM_cons, bind_of_ok called]
      exact others

theorem exists_takesTurns (visit : Definition → Element → Loading Definition)
    (visits : ∀ definition element context, visit definition element context =
      (walk.due phase element (definition, context)).foldlM
        (registry.runProcessor phase (walk.position element)) definition context)
    (serves : walk.Serves registry phase Holds visited) (holds : Holds start) :
    ∃ after last turns, visited.foldlM visit start.1 start.2 = (.ok after, last) ∧
      walk.TakesTurns registry phase visited turns start (after, last) := by
  obtain ⟨after, turns, ran, inOrder, visited, fromStart⟩ :=
    exists_visits visit visits serves holds (.refl _ start)
  refine ⟨after.1, after.2, turns, ran, inOrder, visited, fromStart, fun same => ?_⟩
  have called : (turns.flatMap fun turn => walk.callsAt phase turn.1 turn.2) =
      turns.flatMap fun turn => walk.callsAt phase turn.1 start :=
    List.flatMap_congr fun turn member => congrArg (List.map _) (same turn member)
  have runs := visited.runs
  rw [called] at runs
  rw [calls, ← inOrder, List.flatMap_map]
  exact runs

end Walk

/-! ## Definitions and sub-components -/

namespace AnnotationRegistry

open Walk (elements subComponents)

theorem processSubComponent_apply (registry : AnnotationRegistry) (phase : Phase)
    (definition : Definition) (index : Nat) (context : Context) :
    registry.processSubComponent phase definition index context =
      (subComponents.due phase index (definition, context)).foldlM
        (registry.runProcessor phase (.component index)) definition context := by
  unfold processSubComponent Walk.due
  cases resolved : definition.components[index]?.bind (·.resolvedId?) with
  | none =>
      simp only [subComponents, resolved]
      rfl
  | some id =>
      refine (bind_of_ok rfl).trans ?_
      simp only [subComponents, resolved, Option.bind_some, Context.definition]
      cases context.arena[id]? <;> rfl

/-- Each element of a definition has one turn, at which each annotation is processed that is due of
it then: those of the start in their order, and those that processors have appended since. The same
holds of sub-components, in the order in which they are listed, with the annotations of their
definitions. -/
theorem processes_in_turn (registry : AnnotationRegistry) (phase : Phase)
    (Holds : Definition × Context → Prop) (definition : Definition) (context : Context)
    (holds : Holds (definition, context)) :
    (definition.nodePaths.Nodup ∧ (∀ path, path ∈ definition.nodePaths ↔
        (definition.annotationsAt? path).isSome = true)) ∧
      (elements.Serves registry phase Holds definition.nodePaths →
        ∃ after last turns,
          registry.processDefinition phase definition context = (.ok after, last) ∧
            elements.TakesTurns registry phase definition.nodePaths turns (definition, context)
              (after, last)) ∧
      ∀ indices, subComponents.Serves registry phase Holds indices →
        ∃ after last turns,
          registry.processSubComponents phase definition indices context = (.ok after, last) ∧
            subComponents.TakesTurns registry phase indices turns (definition, context)
              (after, last) := by
  refine ⟨⟨definition.nodup_nodePaths, fun _ => Definition.mem_nodePaths_iff⟩, ?_, ?_⟩
  · intro serves
    exact Walk.exists_takesTurns (registry.processElement phase) (fun _ _ _ => rfl) serves holds
  · intro indices serves
    exact Walk.exists_takesTurns (registry.processSubComponent phase)
      (registry.processSubComponent_apply phase) serves holds

end AnnotationRegistry

/-! ## What is appended, and what is listed twice -/

/-- Where the definition is marked, appends the mark to its first attribute; elsewhere, makes the
name of the definition longer. -/
def Mark.process : Processor := fun built path definition _ =>
  match path with
  | .definition => return some (definition.modifyAnnotationsAt (.attribute 0) fun annotations =>
      { annotations with typed := annotations.typed ++ [built] })
  | _ => return some { definition with name := definition.name ++ "+" }

namespace AnnotationRegistry

open Walk (elements subComponents)

def mark : Annotation where
  kind := "Mark"
  targets := .all
  phases := .single .afterParsing
  isInherited := false
  directive := .mark

/-- A registry with marks only. -/
def marks : AnnotationRegistry :=
  empty.register
    { name := "Mark", parameters := [], build := fun _ => .ok mark, processor := some Mark.process }

theorem processor?_mark : marks.processor? "Mark" = some Mark.process := by
  rfl

theorem appends_mark_elements : elements.Appends Mark.process := by
  intro built path before phase context
  match path with
  | .definition =>
      refine ⟨_, _, rfl, fun element annotations found => ?_⟩
      simp only [elements, Option.getD_some, Definition.annotationsAt?_modifyAnnotationsAt]
      rw [show before.annotationsAt? element = some annotations from found]
      split
      · exact ⟨_, rfl, List.prefix_append _ _⟩
      · exact ⟨_, rfl, List.prefix_refl _⟩
  | .interface _ | .internalInterface _ | .attribute _ | .component _ | .binding _ | .source _ =>
      refine ⟨_, _, rfl, fun element annotations found => ⟨annotations, ?_, List.prefix_refl _⟩⟩
      cases element <;> exact found

theorem appends_mark_subComponents : subComponents.Appends Mark.process := by
  intro built path before phase context
  match path with
  | .definition | .interface _ | .internalInterface _ | .attribute _ | .component _ | .binding _
  | .source _ =>
      exact ⟨_, _, rfl, fun _ annotations found => ⟨annotations, found, List.prefix_refl _⟩⟩

/-- The annotations that count for these elements are marks. -/
def AllMarks {Element : Type} (walk : Walk Element) (state : Definition × Context) : Prop :=
  ∀ element annotations, walk.annotations? element state = some annotations →
    ∀ built ∈ annotations.typed, built.kind = "Mark"

theorem allMarks_elements {built : Annotation} {path : NodePath} {before : Definition}
    {phase : Phase} {context reached : Context} {replacement : Option Definition}
    (isMark : built.kind = "Mark") (holds : AllMarks elements (before, context))
    (ran : Mark.process built path before phase context = (.ok replacement, reached)) :
    AllMarks elements (replacement.getD before, reached) := by
  intro element annotations found
  match path with
  | .definition =>
      cases ran
      simp only [elements, Option.getD_some, Definition.annotationsAt?_modifyAnnotationsAt] at found
      split at found
      · obtain ⟨earlier, wasFound, rfl⟩ := Option.map_eq_some_iff.mp found
        refine List.forall_mem_append.mpr ⟨holds element earlier wasFound, ?_⟩
        exact List.forall_mem_singleton.mpr isMark
      · exact holds element annotations found
  | .interface _ | .internalInterface _ | .attribute _ | .component _ | .binding _ | .source _ =>
      cases ran
      exact holds element annotations (by cases element <;> exact found)

theorem allMarks_subComponents {built : Annotation} {path : NodePath} {before : Definition}
    {phase : Phase} {context reached : Context} {replacement : Option Definition}
    (holds : AllMarks subComponents (before, context))
    (ran : Mark.process built path before phase context = (.ok replacement, reached)) :
    AllMarks subComponents (replacement.getD before, reached) := by
  match path with
  | .definition | .interface _ | .internalInterface _ | .attribute _ | .component _ | .binding _
  | .source _ =>
      cases ran
      exact holds

theorem kind_of_due {Element : Type} {walk : Walk Element} {phase : Phase} {element : Element}
    {state : Definition × Context} {built : Annotation} (holds : AllMarks walk state)
    (isDue : built ∈ walk.due phase element state) : built.kind = "Mark" := by
  unfold Walk.due due at isDue
  cases found : walk.annotations? element state with
  | none =>
      rw [found] at isDue
      cases isDue
  | some annotations =>
      rw [found] at isDue
      exact holds element annotations found built (List.mem_filter.mp isDue).1

theorem serves_elements (phase : Phase) (visited : List NodePath) :
    elements.Serves marks phase (AllMarks elements) visited := by
  rintro _ element later - state holds built isDue
  have isMark := kind_of_due holds isDue
  refine ⟨Mark.process, isMark ▸ processor?_mark, appends_mark_elements.succeeds later ?_⟩
  exact fun _ _ _ _ stillHolds ran => allMarks_elements isMark stillHolds ran

theorem serves_subComponents (phase : Phase) (visited : List Nat) :
    subComponents.Serves marks phase (AllMarks subComponents) visited := by
  rintro _ element later - state holds built isDue
  have isMark := kind_of_due holds isDue
  refine ⟨Mark.process, isMark ▸ processor?_mark, appends_mark_subComponents.succeeds later ?_⟩
  exact fun _ _ _ _ stillHolds ran => allMarks_subComponents stillHolds ran

/-- A marked definition with an attribute and a sub-component. -/
def marked : Definition :=
  { (default : Definition) with
    annotations := ⟨[], [mark]⟩
    attributes := [⟨"size", "int", none, .generated, .none⟩]
    components := [{
      name := "part"
      definition := none
      typeParameter := none
      span := .generated
      annotations := .none
      resolved := some ⟨"a.Part", some 0⟩
      hasLifeCycleController := false }] }

/-- A context that holds a marked definition for the sub-component. -/
def holdingPart : Context :=
  { (default : Context) with
    arena := #[{ (default : Definition) with annotations := ⟨[], [mark]⟩ }] }

theorem allMarks_elements_marked : AllMarks elements (marked, holdingPart) := by
  intro path annotations found
  match path with
  | .definition | .component 0 | .attribute 0 =>
      cases found
      decide
  | .component (_ + 1) | .attribute (_ + 1) | .interface _ | .internalInterface _ | .binding _
  | .source _ => cases found

theorem allMarks_subComponents_marked : AllMarks subComponents (marked, holdingPart) := by
  intro index annotations found
  match index with
  | 0 =>
      cases found
      decide
  | _ + 1 => cases found

/-- The attribute gets its mark before its turn, and the sub-component has two turns. -/
theorem marked_in_turn :
    (∃ after last turns, marks.processDefinition .afterParsing marked holdingPart =
        (.ok after, last) ∧
      elements.TakesTurns marks .afterParsing marked.nodePaths turns (marked, holdingPart)
        (after, last)) ∧
    ∃ after last turns, marks.processSubComponents .afterParsing marked [0, 0] holdingPart =
        (.ok after, last) ∧
      subComponents.TakesTurns marks .afterParsing [0, 0] turns (marked, holdingPart)
        (after, last) := by
  constructor
  · obtain ⟨-, own, -⟩ := processes_in_turn marks .afterParsing (AllMarks elements) marked holdingPart
      allMarks_elements_marked
    exact own (serves_elements .afterParsing marked.nodePaths)
  · obtain ⟨-, -, parts⟩ := processes_in_turn marks .afterParsing (AllMarks subComponents) marked
      holdingPart allMarks_subComponents_marked
    exact parts [0, 0] (serves_subComponents .afterParsing [0, 0])

theorem name_of_runs {registry : AnnotationRegistry} {phase : Phase}
    {calls : List (NodePath × Annotation)} {start last : Definition × Context}
    (runs : Runs registry phase calls start last) :
    (calls.foldlM (fun definition call => registry.runProcessor phase call.1 definition call.2)
      start.1 start.2).1.map (·.name) = .ok last.1.name := by
  rw [Runs.iff_foldlM.mp runs]
  rfl

/-- Processors that only append may have more processed than the annotations of the start: one that
is appended to a later attribute is. Listed twice, a sub-component is processed twice. -/
theorem processes_appended :
    (elements.Appends Mark.process ∧
      elements.Serves marks .afterParsing (AllMarks elements) marked.nodePaths ∧
      AllMarks elements (marked, holdingPart) ∧
      ¬ ∃ after last, marks.processDefinition .afterParsing marked holdingPart = (.ok after, last) ∧
        Runs marks .afterParsing (elements.calls .afterParsing marked.nodePaths (marked, holdingPart))
          (marked, holdingPart) (after, last)) ∧
    subComponents.Appends Mark.process ∧
      subComponents.Serves marks .afterParsing (AllMarks subComponents) [0, 0] ∧
      AllMarks subComponents (marked, holdingPart) ∧
      ¬ ∃ after last,
        marks.processSubComponents .afterParsing marked [0, 0] holdingPart = (.ok after, last) ∧
          Runs marks .afterParsing (subComponents.calls .afterParsing [0] (marked, holdingPart))
            (marked, holdingPart) (after, last) := by
  refine ⟨⟨appends_mark_elements, serves_elements _ _, allMarks_elements_marked, ?_⟩,
    appends_mark_subComponents, serves_subComponents _ _, allMarks_subComponents_marked, ?_⟩
  · rintro ⟨after, last, processed, runs⟩
    have longer : (marks.processDefinition .afterParsing marked holdingPart).1.map (·.name) =
        .ok "+" := by rfl
    have shorter : (.ok "" : Except LoadError String) = .ok after.name := name_of_runs runs
    rw [processed] at longer
    exact absurd (Except.ok.inj (shorter.trans longer)) (by decide)
  · rintro ⟨after, last, processed, runs⟩
    have longer : (marks.processSubComponents .afterParsing marked [0, 0] holdingPart).1.map
        (·.name) = .ok "++" := by rfl
    have shorter : (.ok "+" : Except LoadError String) = .ok after.name := name_of_runs runs
    rw [processed] at longer
    exact absurd (Except.ok.inj (shorter.trans longer)) (by decide)

end AnnotationRegistry

end Adl
