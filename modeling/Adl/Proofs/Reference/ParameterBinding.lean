import Adl.Proofs.Reference.CacheTransparency
import Mathlib.Data.List.Nodup

namespace Adl

open Step Context

/-! How arguments bind parameters. Below the cache the arguments of a reference bind the
parameters of the definition that it names. Those that come from type arguments are for an
instance; nothing compares them with its parameters. An answer from the cache leaves the
arguments as they are. -/

namespace Arguments

variable {target : Definition} {scope : Option Definition} {context reached : Context}
  {reference form : Reference} {arguments others : List Argument}

/-- The arguments name exactly the parameters of a definition, each once. -/
structure Bind (target : Definition) (arguments : List Argument) : Prop where
  named : ∀ argument ∈ arguments, ∃ parameter ∈ target.parameters,
    argument.name = some parameter.name
  bound : ∀ parameter ∈ target.parameters, ∃ argument ∈ arguments,
    argument.name = some parameter.name
  once : (target.parameters.map (·.name)).Nodup → (arguments.map (·.name)).Nodup

theorem Bind.perm (bind : Bind target others) (perm : arguments.Perm others) :
    Bind target arguments where
  named argument member := bind.named argument (perm.mem_iff.mp member)
  bound parameter member := by
    obtain ⟨argument, among, name⟩ := bind.bound parameter member
    exact ⟨argument, perm.mem_iff.mpr among, name⟩
  once distinct := (perm.map _).nodup_iff.mpr (bind.once distinct)

/-- Some arguments bind the parameters of a definition. The others are for instances of it. -/
def BindBesideHoisted (target : Definition) (arguments : List Argument) : Prop :=
  ∃ own hoisted, arguments.Perm (own ++ hoisted) ∧ Bind target own ∧
    ∀ argument ∈ hoisted, target.isGeneric = true ∧ argument.name.any Hoisted.isHoisted = true

theorem BindBesideHoisted.bind (beside : BindBesideHoisted target arguments)
    (plain : target.isGeneric = false) : Bind target arguments := by
  obtain ⟨own, hoisted, perm, bind, forInstance⟩ := beside
  have none : hoisted = [] := by
    refine List.eq_nil_iff_forall_not_mem.mpr fun argument member => ?_
    exact nomatch plain.symm.trans (forInstance argument member).1
  rw [none, List.append_nil] at perm
  exact bind.perm perm

theorem hoisted_of_not_relevant {argument : Argument}
    (irrelevant : isRelevant target argument = false) :
    target.isGeneric = true ∧ argument.name.any Hoisted.isHoisted = true := by
  unfold isRelevant at irrelevant
  rwa [Bool.not_eq_eq_eq_not, Bool.not_false, Bool.and_eq_true] at irrelevant

theorem besideHoisted_of_perm {own : List Argument} (bind : Bind target own)
    (perm : arguments.Perm
      (own ++ others.filter fun argument => !isRelevant target argument)) :
    BindBesideHoisted target arguments := by
  refine ⟨own, _, perm, bind, fun argument member => hoisted_of_not_relevant ?_⟩
  simpa using (List.mem_filter.mp member).2

/-! ## By position -/

theorem length_eq_of_no_positionProblem {span : Span} {count : Nat}
    (none : positionProblem? target span count = none) : count = target.parameters.length := by
  refine Nat.le_antisymm (count_le_of_no_positionProblem none) ?_
  unfold positionProblem? at none
  dsimp only at none
  split at none
  · cases none
  · rename_i beyond
    rw [← List.length_map (f := FormalParameter.name)]
    exact List.getElem?_eq_none_iff.mp beyond

theorem perm_nameByPosition (parameters : List String) (arguments : List Argument)
    (enough : (arguments.filter (isRelevant target)).length ≤ parameters.length) :
    (nameByPosition target parameters arguments).Perm
      (List.zipWith Argument.withName (arguments.filter (isRelevant target)) parameters ++
        arguments.filter fun argument => !isRelevant target argument) := by
  induction arguments generalizing parameters with
  | nil => simp [nameByPosition]
  | cons argument rest induction =>
      cases relevant : isRelevant target argument with
      | true =>
          rw [List.filter_cons_of_pos relevant] at enough ⊢
          cases parameters with
          | nil => exact absurd enough (Nat.not_succ_le_zero _)
          | cons parameter parameters =>
              rw [nameByPosition, if_pos relevant, List.filter_cons_of_neg (by simp [relevant])]
              exact (induction parameters (Nat.le_of_succ_le_succ enough)).cons _
      | false =>
          rw [List.filter_cons_of_neg (by simp [relevant])] at enough ⊢
          rw [nameByPosition_cons parameters rest relevant,
            List.filter_cons_of_pos (by simp [relevant])]
          exact ((induction parameters enough).cons argument).trans List.perm_middle.symm

theorem names_zipWith_withName (arguments : List Argument) (parameters : List String)
    (same : arguments.length = parameters.length) :
    (List.zipWith Argument.withName arguments parameters).map (·.name) =
      parameters.map some := by
  induction arguments generalizing parameters with
  | nil =>
      rw [List.length_nil] at same
      rw [List.eq_nil_of_length_eq_zero same.symm]
      rfl
  | cons argument rest induction =>
      cases parameters with
      | nil => exact nomatch same
      | cons parameter parameters =>
          rw [List.zipWith_cons_cons, List.map_cons, List.map_cons,
            induction parameters (Nat.succ.inj same)]
          rfl

theorem bind_of_names (same : arguments.map (·.name) =
    (target.parameters.map (·.name)).map some) : Bind target arguments where
  named argument member := by
    have among : argument.name ∈ arguments.map (·.name) := List.mem_map_of_mem member
    rw [same, List.map_map] at among
    obtain ⟨parameter, declared, name⟩ := List.mem_map.mp among
    exact ⟨parameter, declared, name.symm⟩
  bound parameter member := by
    have among : some parameter.name ∈ (target.parameters.map (·.name)).map some :=
      List.mem_map_of_mem (List.mem_map_of_mem member)
    rw [← same] at among
    exact List.mem_map.mp among
  once distinct := by
    rw [same]
    exact distinct.map fun _ _ => Option.some.inj

/-! ## By name -/

/-- Where nothing is wrong with the names they are names of parameters and differ. -/
theorem ok_of_nameProblems {bound final : List String}
    (silent : nameProblems target bound arguments = ([], final)) (distinct : bound.Nodup) :
    (∀ argument ∈ arguments, target.hasParameter (argument.name.getD "") = true) ∧
      final = bound ++ arguments.map (·.name.getD "") ∧ final.Nodup := by
  induction arguments generalizing bound with
  | nil =>
      cases silent
      exact ⟨fun _ member => (List.not_mem_nil member).elim, (List.append_nil _).symm, distinct⟩
  | cons argument rest induction =>
      unfold nameProblems at silent
      dsimp only at silent
      split at silent
      · cases congrArg Prod.fst silent
      · rename_i declared
        split at silent
        · cases congrArg Prod.fst silent
        · rename_i fresh
          have extended : (bound ++ [argument.name.getD ""]).Nodup := by
            refine List.nodup_append.mpr ⟨distinct, List.nodup_singleton _, ?_⟩
            rintro name member _ last rfl
            rw [List.mem_singleton] at last
            rw [List.contains_iff_mem, ← last] at fresh
            exact fresh member
          obtain ⟨others, equal, final⟩ := induction silent extended
          refine ⟨List.forall_mem_cons.mpr ⟨by simpa using declared, others⟩, ?_, final⟩
          rw [equal, List.append_assoc]
          rfl

theorem bind_of_no_namedProblems {span : Span}
    (named : ∀ argument ∈ arguments, argument.name.isSome = true)
    (silent : namedProblems target span arguments = []) : Bind target arguments := by
  unfold namedProblems at silent
  rcases outcome : nameProblems target [] arguments with ⟨problems, bound⟩
  rw [outcome] at silent
  dsimp only at silent
  split at silent
  · rename_i noProblems
    rw [List.isEmpty_iff.mp noProblems] at outcome
    obtain ⟨declared, rfl, distinct⟩ := ok_of_nameProblems outcome List.nodup_nil
    rw [List.nil_append] at distinct silent
    have name_eq : ∀ argument ∈ arguments, argument.name = some (argument.name.getD "") := by
      intro argument member
      obtain ⟨name, isName⟩ := Option.isSome_iff_exists.mp (named argument member)
      rw [isName, Option.getD_some]
    have all : (target.parameters.find? fun parameter =>
        !(arguments.map (·.name.getD "")).contains parameter.name) = none := by
      simpa using silent
    refine ⟨fun argument member => ?_, fun parameter member => ?_, fun _ => ?_⟩
    · obtain ⟨parameter, isParameter, same⟩ := List.any_eq_true.mp (declared argument member)
      exact ⟨parameter, isParameter, (name_eq argument member).trans
        (congrArg some (beq_iff_eq.mp same).symm)⟩
    · have found := List.find?_eq_none.mp all parameter member
      rw [Bool.not_eq_true', Bool.not_eq_false, List.contains_iff_mem] at found
      obtain ⟨argument, among, same⟩ := List.mem_map.mp found
      exact ⟨argument, among, (name_eq argument among).trans (congrArg some same)⟩
    · have names : arguments.map (·.name) = (arguments.map (·.name.getD "")).map some := by
        rw [List.map_map]
        exact List.map_congr_left name_eq
      rw [names]
      exact distinct.map fun _ _ => Option.some.inj
  · rename_i present
    rw [silent] at present
    exact absurd rfl present

/-- An accepted reference binds the parameters of its target. -/
theorem bind_of_check
    (ends : check target scope (context, reference) = (.ok true, (reached, form))) :
    BindBesideHoisted target form.arguments := by
  obtain ⟨name, arguments, typeArguments, span, resolved⟩ := reference
  obtain ⟨_, _, drafted, ends⟩ := Step.ok_of_bind ends
  cases drafted
  dsimp only at ends
  have refused : ∀ diagnostics, (liftM (refuse diagnostics) : Revising Reference Bool)
      (context, ⟨name, arguments, typeArguments, span, resolved⟩) ≠
        (.ok true, (reached, form)) := by
    intro diagnostics ends
    obtain ⟨_, _, _, ends⟩ := Step.ok_of_bind (Drafting.ok_of_lift ends).2
    exact nomatch ends
  have parts := (List.filter_append_perm (isRelevant target) arguments).symm
  split at ends
  · rename_i noParameters
    split at ends
    · rename_i irrelevant
      cases ends
      refine besideHoisted_of_perm (bind_of_names ?_) parts
      rw [List.isEmpty_iff.mp irrelevant, List.isEmpty_iff.mp noParameters]
      rfl
    · exact absurd ends (refused _)
  · split at ends
    · exact absurd ends (refused _)
    · split at ends
      · cases noProblem : positionProblem? target span
            (arguments.filter (isRelevant target)).length with
        | some diagnostic =>
            rw [noProblem] at ends
            exact absurd ends (refused _)
        | none =>
            rw [noProblem] at ends
            obtain ⟨_, _, modified, ends⟩ := Step.ok_of_bind ends
            cases modified
            obtain ⟨rfl, -⟩ := Drafting.ok_of_lift ends
            have same := (length_eq_of_no_positionProblem noProblem).trans
              (List.length_map (f := FormalParameter.name)).symm
            exact besideHoisted_of_perm (bind_of_names (names_zipWith_withName _ _ same))
              (perm_nameByPosition _ _ (Nat.le_of_eq same))
      · split at ends
        · exact nomatch ends
        · rename_i named
          cases problems : namedProblems target span (arguments.filter (isRelevant target)) with
          | cons diagnostic rest =>
              rw [problems] at ends
              exact absurd ends (refused _)
          | nil =>
              rw [problems] at ends
              obtain ⟨rfl, -⟩ := Drafting.ok_of_lift ends
              refine besideHoisted_of_perm (bind_of_no_namedProblems ?_ problems) parts
              intro argument member
              cases present : argument.name with
              | none => exact absurd (List.any_eq_true.mpr ⟨argument, member, by simp [present]⟩) named
              | some name => rfl

end Arguments

namespace Resolver

open Arguments

variable {strict : Prop} {Extra : Context → Prop} {load twin : String → Loading DefinitionId}
  {nested nestedTwin : Resolver} {depth : Nat} {Allowed : Value → Prop} {frontEnd : FrontEnd}
  {scope : Option DefinitionId} {context reached : Context} {reference form : Reference}
  {id base target : DefinitionId}

/-- What the definition of a name gives for references to it: for a generic one, an
instance. -/
def Gives (context : Context) (target base : DefinitionId) : Prop :=
  match (context.definition target).isGeneric with
  | false => base = target
  | true => ∃ bindings asked,
      context.cache.find? (InstanceRequest.instanceName ⟨target, bindings⟩ asked) = some base

/-- A definition, or the copy of it if the arguments of the reference ask for one. -/
def IsCopied (context : Context) (form : Reference) (base id : DefinitionId) : Prop :=
  match (context.definition base).bindings? form false with
  | none => id = base
  | some bindings => context.cache.find?
      (Definition.substitutedName (context.definition base).name bindings) = some id

/-- The arguments of a reference bind the parameters of the definition that it names. -/
structure Binds (context : Context) (form : Reference) (target base : DefinitionId) : Prop where
  loaded : context.cache.find? form.name = some target
  gives : Gives context target base
  bound : BindBesideHoisted (context.definition target) form.arguments

theorem Binds.lasts {before after : Context} (binds : Binds before reference target base)
    (sound : before.Sound strict) (evolves : Evolves none before after)
    (resembles : Resembles reference form) : Binds after form target base := by
  have same := sound.definition_of_loaded evolves nofun ⟨_, binds.loaded⟩
  refine ⟨resembles.name ▸ evolves.find?_cache binds.loaded, ?_, ?_⟩
  · have gives := binds.gives
    unfold Gives at gives ⊢
    rw [same]
    split at gives
    · exact gives
    · obtain ⟨bindings, asked, found⟩ := gives
      exact ⟨bindings, asked, evolves.find?_cache found⟩
  · rw [same, resembles.arguments]
    exact binds.bound

theorem bindings?_congr (definition : Definition) (same : form.arguments = reference.arguments) :
    definition.bindings? form false = definition.bindings? reference false := by
  unfold Definition.bindings?
  rw [same]

/-! ## Layer by layer -/

/-- The definition of the name is loaded, and the arguments bind its parameters. -/
theorem bound_of_withArguments (sound : context.Sound strict) (extra : Extra context)
    (loads : Loads frontEnd strict Extra load twin)
    (ends : withArguments (named load) scope (context, reference) =
      (.ok (some target), (reached, form))) :
    reached.cache.find? form.name = some target ∧
      BindBesideHoisted (reached.definition target) form.arguments := by
  obtain ⟨found, ⟨middle, draft⟩, resolved, ends⟩ := Step.ok_of_bind ends
  cases found with
  | none => exact nomatch ends
  | some other =>
      obtain ⟨loaded, resembles⟩ := ok_of_named resolved
      obtain ⟨-, -, foundMiddle⟩ := (loads _ context sound extra).of_ok loaded
      obtain ⟨_, _, read, ends⟩ := Step.ok_of_bind ends
      cases read
      obtain ⟨accepted, ⟨last, checkedForm⟩, checked, ends⟩ := Step.ok_of_bind ends
      cases accepted with
      | false => exact nomatch ends
      | true =>
          cases ends
          have reports : Reports middle reached := reports_of_check _ checked
          obtain ⟨arguments, rfl, -⟩ := ok_of_check checked
          have bound := bind_of_check checked
          rw [← reports.definition] at bound
          refine ⟨?_, bound⟩
          rw [reports.cache]
          exact resembles.name ▸ foundMiddle

/-- For a generic definition the instance is given. -/
theorem binds_of_withInstances (lasts : Lasts frontEnd strict Extra) (loads : Loads frontEnd strict Extra load twin)
    (harmless : frontEnd.registry.IsHarmless)
    (nestedResolves : ∀ below, depth = below + 1 →
      Resolves frontEnd strict Extra below (fitting strict) nested nestedTwin)
    (inScope : InScope strict scope context) (sound : context.Sound strict)
    (extra : Extra context) (within : reference.IsWithin depth Allowed)
    (ends : withInstances frontEnd load nested (withArguments (named load)) scope
      (context, reference) = (.ok (some base), (reached, form))) :
    reached.Sound strict ∧ Extra reached ∧ ∃ target, Binds reached form target base := by
  obtain ⟨target, middle, draft, resolved, answer⟩ := ok_of_withInstances ends
  obtain ⟨⟨⟨soundMiddle, extraMiddle⟩, withinMiddle⟩, leadsMiddle, -⟩ :=
    (resolves_withArguments lasts (resolves_named lasts loads) Allowed scope context reference
      inScope sound extra within).of_ok resolved
  obtain ⟨found, bound⟩ := bound_of_withArguments sound extra loads resolved
  split at answer
  · rename_i plain
    obtain ⟨rfl, rfl, rfl⟩ := answer
    refine ⟨soundMiddle, extraMiddle, base, found, ?_, bound⟩
    unfold Gives
    rw [plain]
  · rename_i isGeneric
    obtain ⟨positions, matched, bindings, asked, changed, positioned, all, made, resembles⟩ :=
      answer
    have matching : Agree (evolving frontEnd strict none Extra) middle
        (TypeArguments.positions draft (middle.definition target).name
          ((middle.definition target).typeParameters.map (·.name))) _ _ :=
      (TypeArguments.agree_positions draft _ _ strict).reported soundMiddle extraMiddle lasts
    obtain ⟨validMatched, leadsMatched, places⟩ := matching.of_ok positioned
    have places : TypeArguments.Places draft _ positions := places
    have inScopeMatched := (inScope.lasts leadsMiddle.toEvolves).lasts leadsMatched.toEvolves
    obtain ⟨validAsked, leadsAsked, bindable⟩ := (agree_bindAll
      (fun parameter context argument inScope valid =>
        agree_bind lasts loads nestedResolves inScope target parameter valid)
      inScopeMatched .empty (fun _ member => nomatch member) ⟨validMatched, withinMiddle⟩
      places.within).of_ok all
    have areBindable : (InstanceRequest.mk target bindings).bindings.AreBindable strict scope
      asked := bindable.1
    obtain ⟨validReached, leadsReached, isInstance⟩ := (InstanceRequest.agree_load harmless
      lasts loads validAsked.1.1 validAsked.1.2 areBindable).of_ok made
    have evolves : Evolves none middle reached :=
      Advances.toEvolves ((Advances.trans leadsMatched leadsAsked).trans leadsReached)
    have same := soundMiddle.definition_of_loaded evolves nofun ⟨_, found⟩
    have total := (resembles_of_bindAll all).trans resembles
    refine ⟨validReached.1, validReached.2, target, ?_, ?_, ?_⟩
    · exact total.name ▸ evolves.find?_cache found
    · unfold Gives
      rw [same, isGeneric]
      exact ⟨bindings, asked, isInstance⟩
    · rw [same, total.arguments]
      exact bound

theorem Binds.loaded_base (binds : Binds context form target base) : context.Loaded base := by
  have gives := binds.gives
  unfold Gives at gives
  split at gives
  · exact gives ▸ ⟨_, binds.loaded⟩
  · obtain ⟨_, _, found⟩ := gives
    exact ⟨_, found⟩

/-- Hoisting comes before the parameters are bound, copies after. -/
theorem binds_of_unqualified (lasts : Lasts frontEnd strict Extra) (loads : Loads frontEnd strict Extra load twin)
    (harmless : frontEnd.registry.IsHarmless)
    (nestedResolves : ∀ below, depth = below + 1 →
      Resolves frontEnd strict Extra below (fitting strict) nested nestedTwin)
    (inScope : InScope strict scope context) (sound : context.Sound strict)
    (extra : Extra context) (within : reference.IsWithin depth Allowed)
    (ends : unqualified frontEnd load nested scope (context, reference) =
      (.ok (some id), (reached, form))) :
    reached.Sound strict ∧
      ∃ target base, Binds reached form target base ∧ IsCopied reached form base id := by
  obtain ⟨base, middle, draft, hoisted, resembles, substitution, substituted, answer⟩ :=
    ok_of_withSubstitution ends
  have inner : middle.Sound strict ∧ Extra middle ∧ ∃ target, Binds middle draft target base := by
    obtain ⟨_, _, drafted, hoisted⟩ := Step.ok_of_bind hoisted
    cases drafted
    split at hoisted
    · obtain ⟨_, ⟨moved, movedForm⟩, moves, hoisted⟩ := Step.ok_of_bind hoisted
      have valid : (discipline frontEnd strict Extra depth Allowed).Valid (context, reference) :=
        ⟨⟨sound, extra⟩, within⟩
      obtain ⟨⟨⟨soundMoved, extraMoved⟩, withinMoved⟩, leadsMoved, -⟩ :=
        (agree_hoist loads.kept valid).of_ok moves
      exact binds_of_withInstances lasts loads harmless nestedResolves
        (inScope.lasts leadsMoved.toEvolves) soundMoved extraMoved withinMoved hoisted
    · exact binds_of_withInstances lasts loads harmless nestedResolves inScope sound extra
        within hoisted
  obtain ⟨soundMiddle, extraMiddle, target, binds⟩ := inner
  obtain ⟨⟨soundReached, -⟩, leads, holds⟩ := (agree_substituteValues lasts loads soundMiddle
    extraMiddle draft base false).of_ok substituted
  refine ⟨soundReached, target, base, binds.lasts soundMiddle leads.toEvolves resembles, ?_⟩
  unfold IsCopied
  rw [soundMiddle.definition_of_loaded leads.toEvolves nofun binds.loaded_base,
    bindings?_congr _ resembles.arguments]
  rcases answer with ⟨rfl, rfl⟩ | rfl
  · rw [show _ = none from holds]
  · obtain ⟨bindings, asked, found⟩ := holds
    rw [asked]
    exact found

/-- A reference is bound: its arguments name exactly the parameters of the definition that is
answered, or of the one that this is a copy of. -/
def IsBound (context : Context) (form : Reference) (id : DefinitionId) : Prop :=
  ∃ base, IsCopied context form base id ∧ Bind (context.definition base) form.arguments

/-- A reference that is resolved anew binds the parameters of the definition that it names,
and is bound if this is not generic. If it is, the arguments which are for the instance are
not compared with its parameters. A reference that is answered from the cache keeps its
arguments. So it is in every context that a compilation comes to, within a load or between
requests. -/
theorem arguments_bind_parameters (frontEnd : FrontEnd)
    (predefined : frontEnd.registry = .predefined) :
    (∀ options definitions requests,
      (frontEnd.after requests (.ofDefinitions options definitions)).Sound False) ∧
    ∀ context load scope reference id reached form, context.Sound False →
      (load = frontEnd.load ∨ ∃ levels, load = frontEnd.loadWithin levels) →
      full frontEnd load scope (context, reference) = (.ok (some id), (reached, form)) →
      match remembered? scope context reference with
      | some found => id = found ∧ reached = context ∧ form.arguments = reference.arguments
      | none => ∃ target base, Binds reached form target base ∧ IsCopied reached form base id ∧
          ((reached.definition target).isGeneric = false → IsBound reached form id) := by
  have harmless : frontEnd.registry.IsHarmless :=
    predefined ▸ AnnotationRegistry.isHarmless_predefined
  refine ⟨fun options definitions requests => (frontEnd.advances_after harmless requests
    (sound_ofDefinitions options definitions False.elim)).1, ?_⟩
  intro context load scope reference id reached form sound isLoad ends
  have lasts : Lasts frontEnd False fun _ => True := fun _ _ _ _ => trivial
  obtain ⟨twin, loads⟩ : ∃ twin, Loads frontEnd False (fun _ => True) load twin := by
    rcases isLoad with rfl | ⟨levels, rfl⟩
    · exact ⟨_, FrontEnd.loads_load harmless False.elim .aborted lasts⟩
    · exact ⟨_, FrontEnd.loads_loadGuarded harmless False.elim .aborted levels lasts⟩
  rw [full_eq, withCache_apply] at ends
  cases found : remembered? scope context reference with
  | some other =>
      rw [found] at ends
      cases ends
      exact ⟨rfl, rfl, rfl⟩
  | none =>
      rw [found] at ends
      obtain ⟨answer, ⟨middle, draft⟩, resolved, remembers⟩ := Step.ok_of_bind ends
      cases answer with
      | none => cases remembers
      | some other =>
          rw [uncached_eq] at resolved
          have within : (qualified frontEnd scope context reference).IsWithin
              reference.nesting fun _ => True := by
            cases scope with
            | none => exact reference.isWithin_self
            | some owner => exact Qualification.isWithin_qualify _ _ reference.isWithin_self
          have nestedResolves : ∀ below, reference.nesting = below + 1 →
              Resolves frontEnd False (fun _ => True) below (fitting False)
                (nestedIn frontEnd load reference) (nestedIn frontEnd twin reference) := by
            intro below equal
            unfold nestedIn
            rw [equal]
            exact resolves_nestedTo lasts loads harmless below
          obtain ⟨-, target, base, binds, copied⟩ := binds_of_unqualified lasts loads
            harmless nestedResolves False.elim sound trivial within resolved
          cases remembers
          refine ⟨target, base, ⟨binds.loaded, binds.gives, binds.bound⟩, copied, fun plain => ?_⟩
          refine ⟨base, copied, ?_⟩
          have gives := binds.gives
          unfold Gives at gives
          rw [show (middle.definition target).isGeneric = false from plain] at gives
          rw [show base = target from gives]
          exact binds.bound.bind plain

/-- A primitive with a parameter, and a generic composite that holds what it is given. -/
def generics : List Definition :=
  [ (Definition.ofKind "a.Q" .primitive).ensureParameter "size",
    { Definition.ofKind "a.G" .composite with
      typeParameters := [⟨"T", none, .generated⟩]
      components := [⟨"c", none, some "T", .generated, .none, none, false⟩] },
    Definition.ofKind "a.Top" .composite ]

/-- The reference to the primitive with one argument. -/
def sized (name : Option String) : Reference :=
  ⟨"a.Q", [⟨name, .number 1, .generated⟩], [], .generated, none⟩

/-- The reference to the generic composite with one type argument. -/
def holding (reference : Reference) : Reference :=
  ⟨"a.G", [], [⟨none, .definition reference, .generated⟩], .generated, none⟩

/-- What is answered in the third definition, with the context after it and the reference. -/
def answered (requests : List Request) (reference : Reference) :
    Except LoadError (Option DefinitionId) × Context × Reference :=
  FrontEnd.registeredOnly.resolve (some 2)
    (FrontEnd.registeredOnly.after requests (.ofDefinitions .default generics), reference)

/-- An argument by position is bound the first time. -/
theorem bound_by_position :
    IsBound (answered [] (sized none)).2.1 (answered [] (sized none)).2.2 3 := by
  have first : (answered [] (sized none)).1 = .ok (some 3) := by decide +kernel
  have ends : answered [] (sized none) =
      (.ok (some 3), (answered [] (sized none)).2.1, (answered [] (sized none)).2.2) :=
    Prod.ext first rfl
  have parameters := arguments_bind_parameters .registeredOnly rfl
  have binding := parameters.2 _ _ (some 2) (sized none) 3 _ _
    (parameters.1 .default generics []) (.inl rfl) ends
  have unknown : remembered? (some 2)
      (FrontEnd.registeredOnly.after [] (.ofDefinitions .default generics)) (sized none) =
        none := by
    decide +kernel
  rw [unknown] at binding
  obtain ⟨target, base, binds, -, plain⟩ := binding
  have loaded : (answered [] (sized none)).2.1.cache.find?
      (answered [] (sized none)).2.2.name = some 0 := by
    decide +kernel
  cases binds.loaded.symm.trans loaded
  exact plain (by decide +kernel)

/-- What is loaded under a name that no copy has is no copy. -/
theorem IsCopied.eq (copied : IsCopied context form base id)
    (names : ∀ entry ∈ context.cache.entries, entry.2 = id →
      entry.1.toList.getLast? ≠ some ')') : id = base := by
  unfold IsCopied at copied
  split at copied
  · exact copied
  · refine absurd ?_ (names _ (Table.mem_entries_of_find? copied) rfl)
    rw [Definition.substitutedName, String.toList_append]
    exact List.getLast?_concat

theorem not_isBound_of_unnamed (unnamed : form.hasNamedArguments = false) :
    ¬IsBound context form id := by
  rintro ⟨base, -, bind⟩
  refine absurd (List.all_eq_true.mpr fun argument member => ?_) (Bool.eq_false_iff.mp unnamed)
  obtain ⟨_, -, named⟩ := bind.named argument member
  exact named ▸ rfl

theorem not_isBound_of_names (names : ∀ entry ∈ context.cache.entries, entry.2 = id →
      entry.1.toList.getLast? ≠ some ')')
    (different : ∃ name, (context.definition id).hasParameter name !=
      form.arguments.any (·.name == some name)) : ¬IsBound context form id := by
  rintro ⟨base, copied, bind⟩
  cases copied.eq names
  obtain ⟨name, different⟩ := different
  refine bne_iff_ne.mp different (Bool.eq_iff_iff.mpr ?_)
  simp only [Definition.hasParameter, List.any_eq_true, beq_iff_eq]
  constructor
  · rintro ⟨parameter, member, rfl⟩
    exact bind.bound parameter member
  · rintro ⟨argument, member, named⟩
    obtain ⟨parameter, among, same⟩ := bind.named argument member
    exact ⟨parameter, among, Option.some.inj (same.symm.trans named)⟩

/-- A definition is found and nothing is reported, but the arguments are not bound to its
parameters. -/
def IsUnbound (answer : Except LoadError (Option DefinitionId) × Context × Reference) : Prop :=
  answer.1 = .ok (some 3) ∧ answer.2.1.log.errors = [] ∧ ¬IsBound answer.2.1 answer.2.2 3

/-- The second time the reference is answered from the cache, and its argument has no name. A
parameter of an instance may get no argument, and an argument for an instance may be for no
parameter of it. Nothing is reported. -/
theorem answered_without_binding :
    IsUnbound (answered [.resolve (some 2) (sized none)] (sized none)) ∧
      IsUnbound (answered [] (holding (.ofName "a.Q"))) ∧
      IsUnbound (answered [] (holding (sized "foo"))) := by
  have noCopy : ∀ answer ∈ [answered [] (holding (.ofName "a.Q")),
        answered [] (holding (sized "foo"))],
      ∀ entry ∈ answer.2.1.cache.entries, entry.2 = 3 → entry.1.toList.getLast? ≠ some ')' := by
    decide +kernel
  rw [List.forall_mem_cons, List.forall_mem_cons] at noCopy
  refine ⟨⟨by decide +kernel, by decide +kernel, ?repeated⟩,
    ⟨by decide +kernel, by decide +kernel, ?bare⟩, by decide +kernel, by decide +kernel, ?misnamed⟩
  case repeated => exact not_isBound_of_unnamed (by decide +kernel)
  case bare => exact not_isBound_of_names noCopy.1 ⟨"T$size", by decide +kernel⟩
  case misnamed => exact not_isBound_of_names noCopy.2.1 ⟨"T$size", by decide +kernel⟩

end Resolver

end Adl
