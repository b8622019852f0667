import Adl.Proofs.Loading.Refusal

namespace Adl

open Step Context

/-! Loads that are tried again after they failed. The definition was refused for its membrane or its
bindings, and goes through the same stages again: where no errors were recorded, none of them finds
anything to do before the one that refuses it. -/

variable {frontEnd : FrontEnd} {name : String} {id : DefinitionId} {context middle : Context}
  {diagnostic : Diagnostic} {load : String → Loading DefinitionId}

/-! ## Stages -/

/-- Without a parser, an unregistered name is not found, whatever else there is. -/
theorem Sources.find_of_unregistered (unparsed : frontEnd.parser = none)
    (unknown : context.registered.find? name = none) :
    ∃ error, ∀ other : Context, other.registered = context.registered →
      other.registeredSources = context.registeredSources →
        find frontEnd name other = (.error error, other) := by
  cases written : context.registeredSources.find? name with
  | some text =>
      refine ⟨.internal (.missingParser name), fun other sameNames sameSources => read_bind rfl ?_⟩
      simp only [sameNames, unknown, sameSources, written, parseRegistered, unparsed]
      rfl
  | none =>
      cases located : frontEnd.locate? name with
      | none =>
          refine ⟨.ofDiagnostic .definitionNotFound .generated
            ("definition '" ++ name ++ "' not found"), fun other sameNames sameSources =>
              read_bind rfl ?_⟩
          simp only [sameNames, unknown, sameSources, written, parseLocated, located]
          rfl
      | some file =>
          refine ⟨.internal (.missingParser name), fun other sameNames sameSources => read_bind rfl ?_⟩
          simp only [sameNames, unknown, sameSources, written, parseLocated, located, unparsed]
          rfl

namespace FrontEnd

/-- What a load inside the cache leaves where it failed: it is not remembered, and fails again in
the same way. -/
structure Repeats (frontEnd : FrontEnd) (load : String → Loading DefinitionId) (name : String)
    (diagnostic : Diagnostic) (context middle : Context) : Prop where
  absent : middle.cache.find? name = none
  loading : middle.loading = context.loading
  options : middle.options = context.options
  again : ∃ trace, frontEnd.runStages load Stage.all name middle =
    (.error (.fatal diagnostic), { middle with trace })

theorem repeats_of_unregistered (unparsed : frontEnd.parser = none)
    (unknown : context.registered.find? name = none) (absent : context.cache.find? name = none)
    (fails : frontEnd.runStages load Stage.all name context = (.error (.fatal diagnostic), middle)) :
    frontEnd.Repeats load name diagnostic context middle := by
  obtain ⟨error, finds⟩ := Sources.find_of_unregistered unparsed unknown
  obtain ⟨trace, counts⟩ := frontEnd.exists_runStages load Stage.all name context
  have failed := (counts.trans (bind_of_error (finds { context with trace } rfl rfl))).symm.trans fails
  cases failed
  refine ⟨absent, rfl, rfl, ?_⟩
  obtain ⟨later, countsAgain⟩ :=
    frontEnd.exists_runStages load Stage.all name { context with trace }
  exact ⟨later, countsAgain.trans (bind_of_error (finds { context with trace := later } rfl rfl))⟩

theorem repeats_of_registered {options : Options} {definitions : List Definition} {levels : Nat}
    (predefined : frontEnd.registry = .predefined) (plain : frontEnd.ParsesPlainly)
    (annotated : ∀ definition, definition ∈ definitions ∨ frontEnd.Parses definition →
      definition.IsPlainlyAnnotated)
    (sound : context.Sound True) (path : Path frontEnd True (.ofDefinitions options definitions) context)
    (registered : context.registered.find? name = some id) (entered : name ∈ context.loading)
    (absent : context.cache.find? name = none)
    (fails : frontEnd.runStages (frontEnd.loadWithin levels) Stage.all name context =
      (.error (.fatal diagnostic), middle)) (silent : middle.log.errors = [])
    (declares : (middle.definition id).DeclaresPlaceholders) :
    frontEnd.Repeats (frontEnd.loadWithin levels) name diagnostic context middle := by
  have endures : frontEnd.registry.Endures := predefined ▸ AnnotationRegistry.endures_predefined
  obtain ⟨trace, runs⟩ :=
    frontEnd.runStages_of_registered (frontEnd.loadWithin levels) Stage.all registered
  have reports : Reports context { context with trace } := { Reports.refl context with }
  have finds : Sources.find frontEnd name { context with trace } = (.ok id, { context with trace }) :=
    Sources.find_of_registered registered
  obtain ⟨valid, -⟩ := Sources.making_of_find (fun _ => plain) (sound.ofReports reports) entered absent
    finds
  rw [runs] at fails
  rcases outcome : Stage.all.forM (Stage.run frontEnd (frontEnd.loadWithin levels) name id)
    { context with trace } with ⟨error | ⟨⟩, reached⟩
  · cases (bind_of_error outcome).symm.trans fails
    obtain ⟨first, stage, rest, final, isRefusing, cut, ran, refuses⟩ :=
      Stage.refused_of_forM endures outcome
    obtain ⟨rfl, refusesAgain⟩ := Stage.refuses_again isRefusing refuses
    have stays : ∀ later, middle.Reports later → later.log.errors = [] →
        Advances frontEnd True (some id) { context with trace } middle ∧
          first.forM (Stage.run frontEnd (frontEnd.loadWithin levels) name id) later = (.ok (), later) :=
      fun later reportsLater silent => Stage.stays_before_refusal predefined plain annotated valid
        (path.reported reports) isRefusing cut ran reportsLater silent
        (reportsLater.definition id ▸ declares) _
    obtain ⟨advances, -⟩ := stays middle (.refl middle) silent
    have evolves := Advances.toEvolves advances
    obtain ⟨later, runsAgain⟩ := FrontEnd.runStages_of_registered (frontEnd.loadWithin levels)
      Stage.all (evolves.registered name id registered)
    have reportsLater : Reports middle { middle with trace := later } := { Reports.refl middle with }
    have started : LoadCache.StartedAt frontEnd True { context with trace } name middle :=
      ⟨some id, advances, fun _ same => .inl (Option.some.inj same ▸ registered)⟩
    refine ⟨?_, evolves.loading, evolves.options, later, runsAgain.trans (bind_of_error ?_)⟩
    · refine LoadCache.absent_of_startedAt ?_ ?_ started
      · exact entered
      · exact absent
    · rw [cut, List.forM_eq_forM, List.forM_append]
      refine (bind_of_ok (stays _ reportsLater silent).2).trans ?_
      rw [List.forM_cons]
      exact bind_of_error (refusesAgain _ _ reportsLater)
  · cases (bind_of_ok outcome).symm.trans fails

end FrontEnd

/-! ## Loads -/

theorem Context.loading_ofDefinitions (options : Options) (definitions : List Definition) :
    (ofDefinitions options definitions).loading = [] := by
  have registered : ∀ (added : List Definition) (context : Context),
      (added.foldl (fun context definition =>
        (context.register definition.name definition).2) context).loading = context.loading := by
    intro added
    induction added with
    | nil => exact fun _ => rfl
    | cons definition rest induction => exact fun context => induction _
  exact registered definitions (.ofOptions options)

/-- Inside the cache a name counts as loading again when it is tried again. -/
theorem LoadCache.entering_leaving (idle : context.loading = [])
    (loading : middle.loading = (entering context name).loading) :
    entering (leaving middle name) name = middle ∧ (leaving middle name).loading = [] := by
  have stack : middle.loading = [name] := by rw [loading, entering, idle, List.nil_append]
  have left : (leaving middle name).loading = [] := by rw [leaving, stack, List.erase_cons_head]
  refine ⟨?_, left⟩
  rw [entering, left, List.nil_append, ← stack]
  rfl

namespace FrontEnd

/-- Where nothing else is loading, a load fails again in the same way if it does so inside the
cache. -/
theorem load_repeats {reached : Context} (idle : context.loading = [])
    (fails : frontEnd.load name context = (.error (.fatal diagnostic), reached))
    (repeats : ∀ levels middle, context.cache.find? name = none →
      reached = LoadCache.leaving middle name →
      frontEnd.runStages (frontEnd.loadWithin levels) Stage.all name (LoadCache.entering context name) =
        (.error (.fatal diagnostic), middle) →
      frontEnd.Repeats (frontEnd.loadWithin levels) name diagnostic
        (LoadCache.entering context name) middle) :
    ∃ trace, frontEnd.load name reached = (.error (.fatal diagnostic), { reached with trace }) := by
  have unfolds : ∀ context, frontEnd.load name context =
      frontEnd.loadWithin (levelsLeft context) name context := fun _ => bind_of_ok rfl
  obtain ⟨inner, isAround⟩ : ∃ inner, frontEnd.loadWithin (levelsLeft context) name =
      LoadCache.around name inner := by
    cases levelsLeft context <;> exact ⟨_, rfl⟩
  have notLoading : name ∉ context.loading := idle ▸ List.not_mem_nil
  have ran := fails
  rw [unfolds, isAround] at ran
  cases found : context.cache.find? name with
  | some id => cases (LoadCache.around_of_found inner found).symm.trans ran
  | none =>
      by_cases room : context.loading.length < context.options.maxResolutionDepth
      · obtain ⟨levels, isRoom⟩ : ∃ levels, levelsLeft context = levels + 1 :=
          Nat.exists_eq_add_one.mpr (Nat.sub_pos_of_lt room)
        have isInner : frontEnd.loadWithin (levelsLeft context) name =
            LoadCache.around name (frontEnd.runStages (frontEnd.loadWithin levels) Stage.all name) := by
          rw [isRoom]
          rfl
        rw [← isAround, isInner, LoadCache.around_of_absent _ found notLoading room] at ran
        rcases outcome : frontEnd.runStages (frontEnd.loadWithin levels) Stage.all name
          (LoadCache.entering context name) with ⟨error | made, middle⟩
        · rw [outcome] at ran
          cases ran
          obtain ⟨absent, loading, options, trace, again⟩ := repeats levels middle found rfl outcome
          obtain ⟨entered, left⟩ := LoadCache.entering_leaving idle loading
          have sameOptions : (LoadCache.leaving middle name).options = context.options := options
          have sameLevels : levelsLeft (LoadCache.leaving middle name) = levelsLeft context := by
            rw [levelsLeft, levelsLeft, sameOptions, left, idle]
          refine ⟨trace, ?_⟩
          rw [unfolds, sameLevels, isInner, LoadCache.around_of_absent, entered, again]
          · rfl
          · exact absent
          · exact left ▸ List.not_mem_nil
          · rw [left, sameOptions, ← idle]
            exact room
        · rw [outcome] at ran
          cases ran
      · cases (LoadCache.around_of_full inner found notLoading (Nat.le_of_not_lt room)).symm.trans ran
        exact ⟨context.trace, fails⟩

/-- A load that fails without errors in a compilation that succeeded so far can be tried again: it
fails with the same diagnostic, and all is as the first attempt left it, up to what is traced. No
placeholder that was inherited may be undeclared. -/
theorem refused_load_repeats (frontEnd : FrontEnd) (options : Options) (definitions : List Definition)
    (roots : List String) (predefined : frontEnd.registry = .predefined)
    (plain : frontEnd.ParsesPlainly)
    (annotated : ∀ definition, definition ∈ definitions ∨ frontEnd.Parses definition →
      definition.IsPlainlyAnnotated)
    (undecorated : ∀ definition ∈ definitions, ∀ component ∈ definition.components,
      component.resolved = none) {compiled : Compiled}
    (succeeds : (frontEnd.compile (.ofDefinitions options definitions) roots).outcome = .ok compiled)
    {name : String}
    (known : frontEnd.parser = none ∨ (compiled.context.registered.find? name).isSome = true)
    {diagnostic : Diagnostic} {reached : Context}
    (fails : frontEnd.load name compiled.context = (.error (.fatal diagnostic), reached))
    (silent : reached.log.errors = [])
    (declares : ∀ id, compiled.context.registered.find? name = some id →
      (reached.definition id).DeclaresPlaceholders) :
    ∃ trace, frontEnd.load name reached = (.error (.fatal diagnostic), { reached with trace }) := by
  have harmless : frontEnd.registry.IsHarmless :=
    predefined ▸ AnnotationRegistry.isHarmless_predefined
  obtain ⟨sound, -, advances⟩ := advances_compile harmless (fun _ : True => plain) roots
    (sound_ofDefinitions options definitions fun _ => undecorated) succeeds
  have idle : compiled.context.loading = [] :=
    (Advances.toEvolves advances).loading.trans (loading_ofDefinitions options definitions)
  refine load_repeats idle fails fun levels middle absent same failed => ?_
  cases registered : compiled.context.registered.find? name with
  | none =>
      refine repeats_of_unregistered (known.resolve_right fun isKnown => ?_) registered absent failed
      rw [registered] at isKnown
      cases isKnown
  | some id =>
      cases same
      have entered : name ∈ (LoadCache.entering compiled.context name).loading :=
        List.mem_append_right _ List.mem_cons_self
      refine repeats_of_registered predefined plain annotated
        (sound.loading (compiled.context.loading ++ [name])) ((Advances.path advances).loading _)
        registered entered absent failed silent (declares id registered)

/-- A composite that inherits a part with a client, which it does not bind. -/
def halfBound : List Definition :=
  [ { Definition.ofKind "a.Part" .primitive with
      interfaces := [.ofRole .client "x" "s"]
      sources := [.ofPath "p.c"] },
    { Definition.ofKind "a.Base" .composite with
      isAbstract := true
      components := [⟨"c", some (.ofName "a.Part"), none, .generated, .none, none, false⟩] },
    { Definition.ofKind "a.Top" .composite with parents := [.ofName "a.Base"] } ]

/-- It is refused once it went through most of the stages, and so it is again. -/
theorem halfBound_refused_twice :
    let unbound := LoadError.ofDiagnostic .unboundInterface .generated
      "client interface 'c.x' of 'a.Top' is not bound"
    ∃ compiled reached trace,
      (registeredOnly.compile (.ofDefinitions .default halfBound) ["a.Part"]).outcome = .ok compiled ∧
      registeredOnly.load "a.Top" compiled.context = (.error unbound, reached) ∧
      registeredOnly.load "a.Top" reached = (.error unbound, { reached with trace }) := by
  intro unbound
  have succeeds : (registeredOnly.compile (.ofDefinitions .default halfBound)
      ["a.Part"]).outcome.toOption.any (fun compiled =>
        (registeredOnly.load "a.Top" compiled.context).1 = .error unbound ∧
        (registeredOnly.load "a.Top" compiled.context).2.log.errors = [] ∧
        ∀ id ∈ compiled.context.registered.find? "a.Top",
          ((registeredOnly.load "a.Top" compiled.context).2.definition id).DeclaresPlaceholders) =
        true := by
    decide +kernel
  obtain ⟨compiled, outcome, refused, silent, declares⟩ := exists_ok_of_any succeeds
  have annotated : ∀ definition ∈ halfBound, definition.IsPlainlyAnnotated := by decide +kernel
  obtain ⟨trace, again⟩ := refused_load_repeats registeredOnly .default halfBound ["a.Part"] rfl
    parsesPlainly_registeredOnly (fun definition known => known.elim (annotated definition)
      fun ⟨_, _, _, _, isParser, _⟩ => nomatch isParser) (by decide) outcome (.inl rfl)
    (Prod.ext refused rfl) silent declares
  exact ⟨compiled, _, trace, outcome, Prod.ext refused rfl, again⟩

/-- A composite that inherits a sub-component which nothing is found for, and a type that would be
found from where it is inherited. -/
def bequeathing : List Definition :=
  [ { Definition.ofKind "p.P" .composite with
      components := [⟨"c", some (.ofName "Foo"), none, .generated, .none, none, false⟩] },
    .ofKind "q.Foo" .type,
    { Definition.ofKind "q.D" .composite with
      parents := [.ofName "p.P"]
      interfaces := [.ofRole .server "s" "s"] } ]

/-- Where errors were recorded, more of them are when the load is tried again: what was inherited
unresolved is looked for in another package then. -/
theorem retry_records_more :
    ¬∀ (definitions : List Definition) (name : String) (diagnostic : Diagnostic) (reached : Context),
      (∀ definition ∈ definitions, definition.IsPlainlyAnnotated) →
      registeredOnly.load name (.ofDefinitions .default definitions) =
        (.error (.fatal diagnostic), reached) →
      ∃ again, registeredOnly.load name reached = (.error (.fatal diagnostic), again) ∧
        again.log.errors = reached.log.errors ∧ again.log.warnings = reached.log.warnings := by
  intro repeats
  have annotated : ∀ definition ∈ bequeathing, definition.IsPlainlyAnnotated := by decide +kernel
  have refused : (registeredOnly.load "q.D" (.ofDefinitions .default bequeathing)).1 =
      .error (.ofDiagnostic .unimplementedInterface .generated
        "Interfaces : s are not implemented. Add a source file or a controller.") := by
    decide +kernel
  have more : (registeredOnly.load "q.D"
      (registeredOnly.load "q.D" (.ofDefinitions .default bequeathing)).2).2.log.errors ≠
        (registeredOnly.load "q.D" (.ofDefinitions .default bequeathing)).2.log.errors := by
    decide +kernel
  rcases outcome : registeredOnly.load "q.D" (.ofDefinitions .default bequeathing) with
    ⟨result, reached⟩
  rw [outcome] at refused more
  cases refused
  obtain ⟨again, ran, same, -⟩ := repeats bequeathing "q.D" _ reached annotated outcome
  rw [ran] at more
  exact more same

/-- A composite for a placeholder and one for a definition of the same name, so that one instance
serves for both of the composites that extend them. -/
def confusing : List Definition :=
  let extending (name : String) (argument : TypeArgumentValue) : Definition :=
    { Definition.ofKind name .composite with
      parents := [⟨"p.P", [], [⟨none, argument, .generated⟩], .generated, none⟩] }
  [ .ofKind "U" .primitive,
    { Definition.ofKind "p.P" .composite with
      typeParameters := [⟨"T", none, .generated⟩]
      components := [⟨"c", none, some "T", .generated, .none, none, false⟩] },
    { extending "q.E" (.parameter "U") with typeParameters := [⟨"U", none, .generated⟩] },
    { extending "q.D" (.definition (.ofName "U")) with interfaces := [.ofRole .server "s" "s"] } ]

/-- What was inherited is a placeholder that is not declared. This is found when the load is tried
again. -/
theorem confusing_retry_records :
    ∃ compiled, (registeredOnly.compile (.ofDefinitions .default confusing) ["q.E"]).outcome =
        .ok compiled ∧
      let refused := registeredOnly.load "q.D" compiled.context
      refused.2.log.errors = [] ∧
        (registeredOnly.load "q.D" refused.2).2.log.errors =
          [.error .invalidSubComponent .generated
            "sub-component 'c' refers to undeclared type parameter 'U'"] := by
  refine exists_ok_of_any ?_
  decide +kernel

end FrontEnd

end Adl
