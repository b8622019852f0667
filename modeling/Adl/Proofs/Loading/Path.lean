import Adl.Loading.Pipeline
import Adl.Proofs.Definition.Growth

namespace Adl

/-! The way a compilation goes. Loading comes from one context to the next by writes of a few
kinds, so what holds at the start and is kept by each of them holds wherever it comes to. -/

namespace Stage

/-- The stages after the parents were merged load nothing. -/
def afterParents : List Stage :=
  [ .process .afterExtends, .subComponentAnnotations, .interfaces, .delegation,
    .membrane, .expandBindings, .checkBindings, .coverage, .parameters, .attributes,
    .process .afterChecking ]

end Stage

/-- A name that consists of another one and of arguments, if there are any. -/
def NamedAfter (base name : String) : Prop :=
  ∃ arguments : List Char, name.toList = base.toList ++ arguments ∧
    ∀ first ∈ arguments.head?, first = '(' ∨ first = '<'

namespace NamedAfter

theorem refl (name : String) : NamedAfter name name :=
  ⟨[], (List.append_nil _).symm, nofun⟩

theorem trans {base middle name : String} (first : NamedAfter base middle)
    (second : NamedAfter middle name) : NamedAfter base name := by
  obtain ⟨left, isMiddle, opensLeft⟩ := first
  obtain ⟨right, isName, opensRight⟩ := second
  refine ⟨left ++ right, by rw [isName, isMiddle, List.append_assoc], ?_⟩
  cases left with
  | nil => exact opensRight
  | cons first rest => exact opensLeft

theorem of_append (base : String) {opening : String} (opens : opening = "(" ∨ opening = "<")
    (rest : String) : NamedAfter base (base ++ opening ++ rest) := by
  refine ⟨opening.toList ++ rest.toList, by simp only [String.toList_append, List.append_assoc], ?_⟩
  rcases opens with rfl | rfl
  · exact fun _ isFirst => .inl (Option.some.inj isFirst).symm
  · exact fun _ isFirst => .inr (Option.some.inj isFirst).symm

/-- A copy lists its bindings. -/
theorem copy (base : String) (bindings : ValueBindings) :
    NamedAfter base (Definition.substitutedName base bindings) := by
  rw [Definition.substitutedName, String.append_assoc]
  exact of_append base (.inl rfl) _

/-- An instance lists what is bound. -/
theorem bound (request : InstanceRequest) (context : Context) :
    NamedAfter (context.definition request.generic).name (request.instanceName context) := by
  rw [InstanceRequest.instanceName, String.append_assoc]
  exact of_append _ (.inr rfl) _

end NamedAfter

/-- The parser of the front end gives the definition for some text. -/
def FrontEnd.Parses (frontEnd : FrontEnd) (definition : Definition) : Prop :=
  ∃ parse name text file, frontEnd.parser = some parse ∧ parse name text file = .ok definition

namespace Context

/-- The contexts that loading comes to from `origin`. A definition is remembered as loaded
when the last stages took it there from a context on the way. -/
inductive Path (frontEnd : FrontEnd) (strict : Prop) (origin : Context) : Context → Prop
  | start : Path frontEnd strict origin origin
  | reported {before after : Context} : Path frontEnd strict origin before →
      Reports before after → Path frontEnd strict origin after
  | loading {before : Context} (loading : List String) : Path frontEnd strict origin before →
      Path frontEnd strict origin { before with loading }
  | remembered {before : Context} (key : String) {id : DefinitionId} :
      Path frontEnd strict origin before → before.Loaded id →
      Path frontEnd strict origin { before with references := before.references.insert key id }
  | parsed {before : Context} {definition : Definition} : Path frontEnd strict origin before →
      frontEnd.Parses definition →
      Path frontEnd strict origin { before with arena := before.arena.push definition }
  | copied {before : Context} (name : String) {target : DefinitionId} {reference : Reference}
      {allowReferences : Bool} {bindings : ValueBindings} : Path frontEnd strict origin before →
      (before.definition target).bindings? reference allowReferences = some bindings →
      NamedAfter (before.definition target).name name →
      Path frontEnd strict origin
        (before.register name ((before.definition target).substitute name bindings)).2
  | instantiated {before : Context} (name : String) (request : InstanceRequest)
      {made : Definition} : Path frontEnd strict origin before →
      (request.bare before name).Edits made →
      NamedAfter (before.definition request.generic).name name →
      Path frontEnd strict origin (before.register name made).2
  | written {before : Context} {name : String} {id : DefinitionId} {changed : Definition} :
      Path frontEnd strict origin before → Making name id before →
      (before.log.errors = [] → Definition.Grows strict before (before.definition id) changed) →
      Path frontEnd strict origin (before.replace id changed)
  | finished {earlier middle before : Context} {name : String} {id : DefinitionId}
      {load : String → Loading DefinitionId} : Path frontEnd strict origin earlier →
      Path frontEnd strict origin middle → Path frontEnd strict origin before →
      Making name id middle → middle.GrewFrom strict earlier id → Making name id before →
      before.cache.find? name = none →
      Stage.afterParents.forM (Stage.run frontEnd load name id) middle = (.ok (), before) →
      Path frontEnd strict origin { before with cache := before.cache.insert name id }

variable {frontEnd : FrontEnd} {strict : Prop} {own : Option DefinitionId}
  {before middle after : Context}

theorem Path.trans (first : Path frontEnd strict before middle)
    (second : Path frontEnd strict middle after) : Path frontEnd strict before after := by
  induction second with
  | start => exact first
  | reported _ reports induction => exact .reported induction reports
  | loading loading _ induction => exact .loading loading induction
  | remembered key _ loaded induction => exact .remembered key induction loaded
  | parsed _ parses induction => exact .parsed induction parses
  | copied name _ asked named induction => exact .copied name induction asked named
  | instantiated name request _ edits named induction =>
      exact .instantiated name request induction edits named
  | written _ making grows induction => exact .written induction making grows
  | finished _ _ _ makingMiddle grew making absent run inductionEarlier inductionMiddle induction =>
      exact .finished inductionEarlier inductionMiddle induction makingMiddle grew making absent run

/-- One context follows from another as evolution allows, on a way that loading goes. -/
structure Advances (frontEnd : FrontEnd) (strict : Prop) (own : Option DefinitionId)
    (before after : Context) : Prop extends Evolves own before after where
  path : Path frontEnd strict before after

namespace Advances

theorem refl (context : Context) : Advances frontEnd strict own context context :=
  ⟨.refl context, .start⟩

theorem trans (first : Advances frontEnd strict own before middle)
    (second : Advances frontEnd strict own middle after) :
    Advances frontEnd strict own before after :=
  ⟨first.toEvolves.trans second.toEvolves, first.path.trans second.path⟩

theorem weaken (advances : Advances frontEnd strict none before after) :
    Advances frontEnd strict own before after :=
  ⟨advances.toEvolves.weaken, advances.path⟩

theorem ofReports (reports : Reports before after) : Advances frontEnd strict own before after :=
  ⟨.ofReports reports, .reported .start reports⟩

end Advances

theorem Reports.advances (reports : Reports before after) :
    Advances frontEnd strict none before after :=
  .ofReports reports

end Context

end Adl
