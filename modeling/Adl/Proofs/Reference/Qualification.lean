import Adl.Proofs.Definition.Imports
import Adl.Proofs.Loading.Path
import Adl.Proofs.Template.OpenParameters
import Mathlib.Data.List.TakeWhile

namespace Adl

/-! What names in references stand for. The rule is told over the paths of the imports as they are
written: the first single import of the name decides, then the package of the scope, then the
packages that are imported on demand. Instances and copies look names up as their origins do. -/

/-! ## Choosing -/

/-- The first of the items for which something holds. -/
def FirstWhere {α : Type} (Holds : α → Prop) (items : List α) (item : α) : Prop :=
  ∃ before after, items = before ++ item :: after ∧ Holds item ∧ ∀ earlier ∈ before, ¬Holds earlier

namespace FirstWhere

variable {α β : Type} {Holds : α → Prop} {items : List α} {item other : α}

theorem find?_eq_some_iff {test : α → Bool} :
    items.find? test = some item ↔ FirstWhere (test · = true) items item := by
  rw [List.find?_eq_some_iff_append]
  constructor
  · rintro ⟨found, before, after, whole, others⟩
    exact ⟨before, after, whole, found, fun earlier among => by simpa using others earlier among⟩
  · rintro ⟨before, after, whole, found, others⟩
    exact ⟨found, before, after, whole, fun earlier among => by simpa using others earlier among⟩

theorem congr {Other : α → Prop} (same : ∀ item ∈ items, Holds item ↔ Other item) :
    FirstWhere Holds items item ↔ FirstWhere Other items item := by
  refine exists_congr fun before => exists_congr fun after => and_congr_right ?_
  rintro rfl
  refine and_congr (same item (by simp)) (forall₂_congr fun earlier among => not_congr ?_)
  exact same earlier (List.mem_append_left _ among)

theorem map_iff (change : β → α) (origins : List β) :
    FirstWhere Holds (origins.map change) item ↔
      ∃ origin, change origin = item ∧ FirstWhere (fun origin => Holds (change origin)) origins
        origin := by
  constructor
  · rintro ⟨before, after, whole, holds, others⟩
    obtain ⟨left, right, rfl, rfl, isRight⟩ := List.map_eq_append_iff.mp whole
    obtain ⟨origin, rest, rfl, rfl, rfl⟩ := List.map_eq_cons_iff.mp isRight
    exact ⟨origin, rfl, left, rest, rfl, holds, fun earlier among =>
      others _ (List.mem_map_of_mem among)⟩
  · rintro ⟨origin, rfl, before, after, rfl, holds, others⟩
    refine ⟨before.map change, after.map change, by simp, holds, ?_⟩
    exact List.forall_mem_map.mpr others

theorem mem (first : FirstWhere Holds items item) : item ∈ items := by
  obtain ⟨before, after, rfl, -, -⟩ := first
  simp

theorem holds (first : FirstWhere Holds items item) : Holds item := by
  obtain ⟨_, _, -, found, -⟩ := first
  exact found

theorem unique (first : FirstWhere Holds items item) (second : FirstWhere Holds items other) :
    item = other := by
  classical
  have found {item : α} (first : FirstWhere Holds items item) :
      items.find? (fun item => decide (Holds item)) = some item :=
    find?_eq_some_iff.mpr (by simpa using first)
  exact Option.some.inj ((found first).symm.trans (found second))

end FirstWhere

/-- A choice falls on what is there, or else on the default. -/
theorem eq_getD_iff {α : Type} {choice : Option α} {Chosen : α → Prop} {default item : α}
    (chosen : ∀ item, choice = some item ↔ Chosen item) :
    item = choice.getD default ↔ Chosen item ∨ (∀ other, ¬Chosen other) ∧ item = default := by
  simp only [← chosen]
  cases choice <;> simp [eq_comm]

/-! ## Names without arguments -/

/-- No arguments begin in the name. -/
def IsBaseName (name : String) : Prop :=
  '<' ∉ name.toList ∧ '(' ∉ name.toList

/-- What stands before the arguments in a name. -/
def baseName (name : String) : List Char :=
  name.toList.takeWhile fun character => character != '<' && character != '('

/-- Definitions that are named after one another have the same name before the arguments. -/
theorem NamedAfter.baseName_eq {base name : String} (named : NamedAfter base name) :
    baseName name = baseName base := by
  obtain ⟨arguments, whole, opens⟩ := named
  have stopped : arguments.takeWhile
      (fun character => character != '<' && character != '(') = [] := by
    cases arguments with
    | nil => rfl
    | cons first rest => rcases opens first rfl with rfl | rfl <;> rfl
  rw [baseName, whole, List.takeWhile_append]
  split
  · rename_i all
    rw [stopped, List.append_nil, baseName]
    exact ((List.takeWhile_prefix _).eq_of_length all).symm
  · rfl

theorem IsBaseName.baseName_eq {name : String} (bare : IsBaseName name) :
    baseName name = name.toList :=
  List.takeWhile_eq_self_iff.mpr fun character among => by
    have opensNot : character ≠ '<' ∧ character ≠ '(' :=
      ⟨fun same => bare.1 (same ▸ among), fun same => bare.2 (same ▸ among)⟩
    simpa using opensNot

theorem isBaseName_baseName (name : String) : IsBaseName (String.ofList (baseName name)) := by
  have within (character : Char) (among : character ∈ baseName name) :
      character ≠ '<' ∧ character ≠ '(' := by
    simpa using List.mem_takeWhile_imp among
  rw [IsBaseName, String.toList_ofList]
  exact ⟨fun among => (within _ among).1 rfl, fun among => (within _ among).2 rfl⟩

theorem namedAfter_baseName (name : String) :
    NamedAfter (String.ofList (baseName name)) name := by
  refine ⟨_, by rw [String.toList_ofList, baseName, List.takeWhile_append_dropWhile], ?_⟩
  intro first isFirst
  have stops := List.head?_dropWhile_not
    (fun character => character != '<' && character != '(') name.toList
  rw [isFirst] at stops
  simpa [or_comm, imp_iff_not_or] using stops

/-! ## The rule -/

namespace Qualification

section Rule

variable (isKnown : String → Bool) (scope : String) (paths : List String) (name : String)

/-- The package of a definition, to which the arguments of an instance or a copy do not belong. -/
def IsPackage (package : String) : Prop :=
  ∃ simple base : String, base = package ++ "." ++ simple ∧ '.' ∉ simple.toList ∧
    IsBaseName base ∧ NamedAfter base scope

/-- The single import gives the path to the name. -/
def Spells (path : String) : Prop :=
  name ≠ "*" ∧ Text.simpleName path = name

instance (path : String) : Decidable (Spells name path) :=
  inferInstanceAs (Decidable (_ ∧ _))

/-- The path imports a package on demand that has a definition of the name. -/
def Finds (path : String) : Prop :=
  ∃ package, path = package ++ ".*" ∧ isKnown (package ++ "." ++ name) = true

/-- The definition of the name in the package of the scope. -/
def Neighbor (full : String) : Prop :=
  isKnown full = true ∧ ∃ package, IsPackage scope package ∧ full = package ++ "." ++ name

/-- The first definition of the name in a package that is imported on demand. -/
def Fetched (full : String) : Prop :=
  ∃ package, full = package ++ "." ++ name ∧ FirstWhere (Finds isKnown name) paths (package ++ ".*")

/-- What a name stands for in a scope. -/
inductive FullName : String → Prop
  | dotted : '.' ∈ name.toList → FullName name
  | single {path : String} : '.' ∉ name.toList → FirstWhere (Spells name) paths path → FullName path
  | neighbor {full : String} : '.' ∉ name.toList → (∀ path, ¬FirstWhere (Spells name) paths path) →
      Neighbor isKnown scope name full → FullName full
  | onDemand {full : String} : '.' ∉ name.toList → (∀ path, ¬FirstWhere (Spells name) paths path) →
      (∀ full, ¬Neighbor isKnown scope name full) → Fetched isKnown paths name full →
      FullName full
  | unchanged : '.' ∉ name.toList → (∀ path, ¬FirstWhere (Spells name) paths path) →
      (∀ full, ¬Neighbor isKnown scope name full) →
      (∀ full, ¬Fetched isKnown paths name full) → FullName name

end Rule

variable {isKnown : String → Bool} {scope : Definition} {paths : List String} {name full : String}

theorem package?_eq (name : String) :
    package? name = (Text.splitLastDot? (baseName name)).map fun (package, _) =>
      String.ofList package :=
  rfl

theorem package?_eq_some_iff {package : String} :
    package? scope.name = some package ↔ IsPackage scope.name package := by
  simp only [package?_eq, Option.map_eq_some_iff, Prod.exists]
  constructor
  · rintro ⟨before, after, splits, rfl⟩
    obtain ⟨whole, simple⟩ := Text.splitLastDot?_eq_some_iff.mp splits
    refine ⟨String.ofList after, String.ofList (baseName scope.name), ?_, ?_,
      isBaseName_baseName _, namedAfter_baseName _⟩
    · rw [← String.toList_inj]
      simp [whole]
    · rwa [String.toList_ofList]
  · rintro ⟨simple, _, rfl, plain, bare, named⟩
    refine ⟨package.toList, simple.toList, ?_, String.ofList_toList⟩
    rw [named.baseName_eq, bare.baseName_eq]
    exact Text.splitLastDot?_append package plain

theorem fromPackage?_eq_some_iff :
    fromPackage? isKnown scope name = some full ↔ Neighbor isKnown scope.name name full := by
  rw [fromPackage?, Option.filter_eq_some_iff, Option.map_eq_some_iff, and_comm]
  simp only [package?_eq_some_iff, Neighbor, eq_comm (a := full)]

section Written

variable (simple : ∀ declaration ∈ scope.imports, '.' ∉ declaration.simpleName.toList)
include simple

theorem fromSingleImport?_eq_some_iff :
    fromSingleImport? scope name = some full ↔
      FirstWhere (Spells name) (scope.imports.map Import.path) full := by
  have offers (declaration : Import) (among : declaration ∈ scope.imports) :
      (if (!declaration.isOnDemand) = true then declaration.qualify? name else none) =
        if Spells name declaration.path then some declaration.path else none := by
    simp only [Spells, Import.simpleName_path (simple declaration among)]
    by_cases same : declaration.simpleName = name
    · simp [Import.isOnDemand, Import.qualify?, Import.path, same]
    · simp +contextual [Import.isOnDemand, Import.qualify?, same]
  rw [fromSingleImport?, ← List.head?_filterMap, List.filterMap_filter, List.filterMap_congr offers,
    List.head?_filterMap, List.findSome?_eq_some_iff, FirstWhere.map_iff]
  simp only [Option.ite_none_right_eq_some, Option.some.injEq, ite_eq_right_iff, reduceCtorEq]
  constructor
  · rintro ⟨before, declaration, after, whole, ⟨spells, same⟩, others⟩
    exact ⟨declaration, same, before, after, whole, spells, others⟩
  · rintro ⟨declaration, same, before, after, whole, spells, others⟩
    exact ⟨before, declaration, after, whole, ⟨spells, same⟩, others⟩

theorem fromOnDemandImport?_eq_some_iff :
    fromOnDemandImport? isKnown scope name = some full ↔
      Fetched isKnown (scope.imports.map Import.path) name full := by
  have offers (declaration : Import) (among : declaration ∈ scope.imports) :
      declaration.isOnDemand = true ∧ (declaration.qualify? name).any isKnown = true ↔
        Finds isKnown name declaration.path := by
    simp +contextual [Finds, Import.path_eq_onDemand_iff (simple declaration among),
      Import.isOnDemand, Import.qualify?]
  rw [fromOnDemandImport?, List.find?_filterMap, List.find?_filter, Option.bind_eq_some_iff]
  simp only [FirstWhere.find?_eq_some_iff, decide_eq_true_eq, FirstWhere.congr offers, Fetched,
    FirstWhere.map_iff]
  constructor
  · rintro ⟨declaration, first, offered⟩
    have among : declaration ∈ scope.imports := first.mem
    have onDemand := ((offers declaration among).mpr first.holds).1
    rw [Import.qualify?, onDemand, Bool.true_or, if_pos rfl] at offered
    refine ⟨declaration.package, (Option.some.inj offered).symm, declaration, ?_, first⟩
    exact (Import.path_eq_onDemand_iff (simple _ among)).mpr ⟨beq_iff_eq.mp onDemand, rfl⟩
  · rintro ⟨package, rfl, declaration, isPath, first⟩
    obtain ⟨star, rfl⟩ := (Import.path_eq_onDemand_iff (simple _ first.mem)).mp isPath
    exact ⟨declaration, first, by simp [Import.qualify?, Import.isOnDemand, star]⟩

theorem fullName_iff :
    FullName isKnown scope.name (scope.imports.map Import.path) name full ↔
      full = qualifyName isKnown scope name := by
  have single (full : String) : fromSingleImport? scope name = some full ↔ _ :=
    fromSingleImport?_eq_some_iff simple
  have neighbor (full : String) : fromPackage? isKnown scope name = some full ↔ _ :=
    fromPackage?_eq_some_iff
  have fetched (full : String) : fromOnDemandImport? isKnown scope name = some full ↔ _ :=
    fromOnDemandImport?_eq_some_iff simple
  unfold qualifyName
  -- the default of each choice is taken where the choice before finds nothing, as in the rule
  by_cases dotted : '.' ∈ name.toList
  · rw [if_pos (Text.hasDot_iff.mpr dotted)]
    constructor
    · rintro (_ | plain | plain | plain | plain)
      · rfl
      all_goals exact absurd dotted plain
    · rintro rfl
      exact .dotted dotted
  · rw [if_neg (Text.hasDot_iff.not.mpr dotted), eq_getD_iff single,
      eq_getD_iff neighbor, eq_getD_iff fetched]
    constructor
    · rintro (isDotted | ⟨-, spelled⟩ | ⟨-, unspelled, near⟩ | ⟨-, unspelled, far, found⟩ |
        ⟨-, unspelled, far, unfound⟩)
      · exact absurd isDotted dotted
      · exact .inl spelled
      · exact .inr ⟨unspelled, .inl near⟩
      · exact .inr ⟨unspelled, .inr ⟨far, .inl found⟩⟩
      · exact .inr ⟨unspelled, .inr ⟨far, .inr ⟨unfound, rfl⟩⟩⟩
    · rintro (spelled | ⟨unspelled, near | ⟨far, found | ⟨unfound, rfl⟩⟩⟩)
      · exact .single dotted spelled
      · exact .neighbor dotted unspelled near
      · exact .onDemand dotted unspelled far found
      · exact .unchanged dotted unspelled far unfound

end Written

end Qualification

/-! ## References -/

/-- The reference is nothing but the name of a parameter. -/
def Reference.NamesParameter (parameters : List String) (parameter : String)
    (reference : Reference) : Prop :=
  reference.name = parameter ∧ reference.arguments = [] ∧ reference.typeArguments = [] ∧
    parameter ∈ parameters

mutual
/-- A reference reads as another one: its names stand for full names, at every depth, and type
arguments that name parameters for these. -/
inductive Reference.ReadsAs (Full : String → String → Prop) (parameters : List String) :
    Reference → Reference → Prop
  | intro {name full : String} {arguments : List Argument} {typeArguments read : List TypeArgument}
      {span : Span} {resolved : Option Resolved} : Full name full →
      List.Forall₂ (TypeArgument.ReadsAs Full parameters) typeArguments read →
      Reference.ReadsAs Full parameters ⟨name, arguments, typeArguments, span, resolved⟩
        ⟨full, arguments, read, span, resolved⟩

inductive TypeArgument.ReadsAs (Full : String → String → Prop) (parameters : List String) :
    TypeArgument → TypeArgument → Prop
  | parameter (label : Option String) (parameter : String) (span : Span) :
      TypeArgument.ReadsAs Full parameters ⟨label, .parameter parameter, span⟩
        ⟨label, .parameter parameter, span⟩
  | named (label : Option String) {reference : Reference} {parameter : String} (span : Span) :
      reference.NamesParameter parameters parameter →
      TypeArgument.ReadsAs Full parameters ⟨label, .definition reference, span⟩
        ⟨label, .parameter parameter, span⟩
  | definition (label : Option String) {reference read : Reference} (span : Span) :
      (∀ parameter, ¬reference.NamesParameter parameters parameter) →
      Reference.ReadsAs Full parameters reference read →
      TypeArgument.ReadsAs Full parameters ⟨label, .definition reference, span⟩
        ⟨label, .definition read, span⟩
end

namespace Qualification

variable {isKnown : String → Bool} {scope origin : Definition}

theorem namedParameter?_eq_some_iff {reference : Reference} {parameter : String} :
    namedParameter? scope reference = some parameter ↔
      reference.NamesParameter scope.typeParameterNames parameter := by
  rw [Reference.NamesParameter, ← Definition.hasTypeParameter_iff]
  constructor
  · exact Reference.of_namedParameter?
  · rintro ⟨rfl, noArguments, noTypeArguments, declared⟩
    simp [namedParameter?, noArguments, noTypeArguments, declared]

variable {Full : String → String → Prop}

mutual
theorem readsAs_iff
    (fullName : ∀ name full, Full name full ↔ full = qualifyName isKnown scope name) :
    (reference : Reference) → {read : Reference} →
      (reference.ReadsAs Full scope.typeParameterNames read ↔
        read = qualify isKnown scope reference)
  | ⟨name, arguments, typeArguments, span, resolved⟩, read => by
      rw [qualify]
      constructor
      · rintro ⟨isFull, others⟩
        rw [(fullName _ _).mp isFull, (typeArguments_readAs_iff fullName typeArguments).mp others]
      · rintro rfl
        exact ⟨(fullName _ _).mpr rfl, (typeArguments_readAs_iff fullName typeArguments).mpr rfl⟩

theorem typeArguments_readAs_iff
    (fullName : ∀ name full, Full name full ↔ full = qualifyName isKnown scope name) :
    (arguments : List TypeArgument) → {read : List TypeArgument} →
      (List.Forall₂ (TypeArgument.ReadsAs Full scope.typeParameterNames) arguments read ↔
        read = qualifyTypeArguments isKnown scope arguments)
  | [], read => by rw [qualifyTypeArguments, List.forall₂_nil_left_iff]
  | ⟨label, .parameter parameter, span⟩ :: rest, read => by
      rw [qualifyTypeArguments]
      constructor
      · rintro (_ | ⟨⟨⟩, others⟩)
        rw [(typeArguments_readAs_iff fullName rest).mp others]
      · rintro rfl
        exact .cons (.parameter ..) ((typeArguments_readAs_iff fullName rest).mpr rfl)
  | ⟨label, .definition reference, span⟩ :: rest, read => by
      rw [qualifyTypeArguments]
      constructor
      · rintro (_ | ⟨first, others⟩)
        rw [(typeArguments_readAs_iff fullName rest).mp others]
        cases first with
        | named _ _ names => rw [namedParameter?_eq_some_iff.mpr names]
        | definition _ _ nameless reads =>
            have unnamed : namedParameter? scope reference = none :=
              Option.eq_none_iff_forall_ne_some.mpr fun parameter named =>
                nameless parameter (namedParameter?_eq_some_iff.mp named)
            rw [unnamed, (readsAs_iff fullName reference).mp reads]
      · rintro rfl
        refine .cons ?_ ((typeArguments_readAs_iff fullName rest).mpr rfl)
        cases named : namedParameter? scope reference with
        | some parameter => exact .named _ _ (namedParameter?_eq_some_iff.mp named)
        | none =>
            refine .definition _ _ (fun parameter names => ?_)
              ((readsAs_iff fullName reference).mpr rfl)
            rw [namedParameter?_eq_some_iff.mpr names] at named
            cases named
end

end Qualification

/-! ## Instances and copies -/

namespace Definition

/-- A definition comes from another one: it is what became of an instance or a copy of it, and
the other one is what became of the origin. -/
inductive ComesFrom (strict : Prop) : Definition → Definition → Prop
  | instantiated {request : InstanceRequest} {registry : AnnotationRegistry}
      {layers : List TemplateLayer} {context after : Context} {made : Definition} :
      registry.IsHarmless →
      request.build registry layers (request.instanceName context) context = (.ok made, after) →
      ComesFrom strict made (context.definition request.generic)
  | copied (origin : Definition) (bindings : ValueBindings) :
      ComesFrom strict (origin.substitute (substitutedName origin.name bindings) bindings) origin
  | grown {context : Context} {scope changed origin : Definition} :
      ComesFrom strict scope origin → Grows strict context scope changed →
      ComesFrom strict changed origin
  | originGrown {context : Context} {scope origin changed : Definition} :
      ComesFrom strict scope origin → Grows strict context origin changed →
      ComesFrom strict scope changed

/-- Names are looked up alike in both definitions. -/
structure LooksUpLike (scope origin : Definition) : Prop where
  imports : scope.imports = origin.imports
  baseName : baseName scope.name = baseName origin.name

theorem LooksUpLike.trans {first second third : Definition} (left : first.LooksUpLike second)
    (right : second.LooksUpLike third) : first.LooksUpLike third :=
  ⟨left.imports.trans right.imports, left.baseName.trans right.baseName⟩

theorem LooksUpLike.symm {scope origin : Definition} (alike : scope.LooksUpLike origin) :
    origin.LooksUpLike scope :=
  ⟨alike.imports.symm, alike.baseName.symm⟩

section Changes

variable {strict : Prop} {context : Context} {scope origin changed : Definition}

/-- No step of loading changes where names are looked up. -/
theorem Grows.looksUpLike (grows : Grows strict context scope changed) :
    changed.LooksUpLike scope := by
  induction grows with
  | refl => exact ⟨rfl, rfl⟩
  | tail _ change induction =>
      refine .trans ?_ induction
      cases change with
      | edited edit => exact ⟨edit.imports, congrArg _ edit.keeps.name⟩
      | conforming | resolved | extended | merged | marked => exact ⟨rfl, rfl⟩

theorem ComesFrom.looksUpLike (comesFrom : scope.ComesFrom strict origin) :
    scope.LooksUpLike origin := by
  induction comesFrom with
  | @instantiated request _ layers context _ _ harmless builds =>
      obtain ⟨-, -, edits⟩ := (InstanceRequest.agree_build harmless layers).of_ok builds
      refine ⟨edits.imports, ?_⟩
      rw [edits.keeps.name]
      exact (NamedAfter.bound request context).baseName_eq
  | copied origin bindings => exact ⟨rfl, (NamedAfter.copy origin.name bindings).baseName_eq⟩
  | grown _ grows induction => exact grows.looksUpLike.trans induction
  | originGrown _ grows induction => exact induction.trans grows.looksUpLike.symm

/-- A copy has the type parameters of its origin, an instance those that stay open. -/
theorem ComesFrom.typeParameterNames (comesFrom : scope.ComesFrom strict origin) :
    scope.typeParameterNames = origin.typeParameterNames ∨ ∃ bindings : TypeBindings,
      scope.typeParameterNames = origin.typeParameterNames.filterMap bindings.renamed? := by
  induction comesFrom with
  | @instantiated request _ layers context _ _ harmless builds =>
      obtain ⟨-, -, edits⟩ := (InstanceRequest.agree_build harmless layers).of_ok builds
      refine .inr ⟨request.bindings, ?_⟩
      rw [edits.keeps.typeParameters, InstanceRequest.typeParameterNames_bare]
  | copied => exact .inl rfl
  | grown _ grows induction => rwa [grows.typeParameterNames]
  | originGrown _ grows induction => rwa [grows.typeParameterNames]

end Changes

end Definition

namespace Reference

/-! The names of type arguments that have no arguments of their own, at every depth. -/

mutual
def bareNames : Reference → List String
  | ⟨_, _, typeArguments, _, _⟩ => typeArgumentBareNames typeArguments

def typeArgumentBareNames : List TypeArgument → List String
  | [] => []
  | ⟨_, .definition reference, _⟩ :: rest =>
      (if reference.arguments.isEmpty && reference.typeArguments.isEmpty then [reference.name]
        else []) ++ bareNames reference ++ typeArgumentBareNames rest
  | ⟨_, .parameter _, _⟩ :: rest => typeArgumentBareNames rest
end

theorem namesParameter_formal {parameters : List String} {parameter : String} {scope : Definition}
    {reference : Reference} : (reference.formal scope).NamesParameter parameters parameter ↔
      reference.NamesParameter parameters parameter := by
  obtain ⟨name, arguments, typeArguments, span, resolved⟩ := reference
  have empty : formalTypeArguments scope typeArguments = [] ↔ typeArguments = [] := by
    cases typeArguments with
    | nil => simp [formalTypeArguments]
    | cons argument rest =>
        obtain ⟨label, value | value, span⟩ := argument <;> simp [formalTypeArguments]
  simp only [NamesParameter, formal, empty]

end Reference

namespace Qualification

variable {isKnown : String → Bool} {scope origin : Definition}

theorem qualifyName_congr (alike : scope.LooksUpLike origin) (name : String) :
    qualifyName isKnown scope name = qualifyName isKnown origin name := by
  simp only [qualifyName, fromSingleImport?, fromPackage?, fromOnDemandImport?, package?_eq,
    alike.imports, alike.baseName]

mutual
/-- Where no name is taken for another parameter, what is no parameter of the origin gets the
same full names. -/
theorem qualify_formal (alike : scope.LooksUpLike origin) : (reference : Reference) →
    (∀ parameter ∈ scope.typeParameterNames,
      parameter ∈ origin.typeParameterNames ∨ parameter ∉ reference.bareNames) →
    qualify isKnown scope (reference.formal origin) = qualify isKnown origin reference
  | ⟨name, arguments, typeArguments, span, resolved⟩, apart => by
      rw [Reference.bareNames] at apart
      rw [Reference.formal, qualify, qualify, qualifyName_congr alike,
        qualifyTypeArguments_formal alike typeArguments apart]

theorem qualifyTypeArguments_formal (alike : scope.LooksUpLike origin) :
    (arguments : List TypeArgument) →
    (∀ parameter ∈ scope.typeParameterNames,
      parameter ∈ origin.typeParameterNames ∨
        parameter ∉ Reference.typeArgumentBareNames arguments) →
    qualifyTypeArguments isKnown scope (Reference.formalTypeArguments origin arguments) =
      qualifyTypeArguments isKnown origin arguments
  | [], _ => by rw [Reference.formalTypeArguments, qualifyTypeArguments, qualifyTypeArguments]
  | ⟨label, .parameter parameter, span⟩ :: rest, apart => by
      rw [Reference.typeArgumentBareNames] at apart
      rw [Reference.formalTypeArguments, qualifyTypeArguments, qualifyTypeArguments,
        qualifyTypeArguments_formal alike rest apart]
  | ⟨label, .definition reference, span⟩ :: rest, apart => by
      simp only [Reference.typeArgumentBareNames, List.mem_append, not_or] at apart
      have others := qualifyTypeArguments_formal alike rest fun parameter declared =>
        (apart parameter declared).imp_right (·.2)
      rw [Reference.formalTypeArguments, qualifyTypeArguments]
      cases named : namedParameter? origin reference with
      | some parameter => rw [qualifyTypeArguments, others]
      | none =>
          -- a parameter that only the scope declares is not among the bare names
          have unnamed : namedParameter? scope (reference.formal origin) = none := by
            refine Option.eq_none_iff_forall_ne_some.mpr fun parameter taken => ?_
            obtain ⟨rfl, noArguments, noTypeArguments, declared⟩ :=
              Reference.namesParameter_formal.mp (namedParameter?_eq_some_iff.mp taken)
            rcases apart _ declared with own | absent
            · rw [namedParameter?_eq_some_iff.mpr ⟨rfl, noArguments, noTypeArguments, own⟩]
                at named
              cases named
            · simp [noArguments, noTypeArguments] at absent
          dsimp only
          rw [qualifyTypeArguments, unnamed, others,
            qualify_formal alike reference fun parameter declared =>
              (apart parameter declared).imp_right (·.1.2)]
end

end Qualification

namespace FrontEnd

open Qualification

/-- The reference reads as another one in the scope, which imports the paths. -/
def ReadsIn (frontEnd : FrontEnd) (context : Context) (scope : Definition) (paths : List String)
    (reference read : Reference) : Prop :=
  reference.ReadsAs (FullName (frontEnd.definitionExists context) scope.name paths)
    scope.typeParameterNames read

/-- References are qualified as the imports are written, if each is written with a package. One
that is not gets a dot in front, and gives that to the name it imports. What comes from another
definition looks names up as that one does, where it does not take them for type parameters of
its own. -/
theorem qualifies_as_written (frontEnd : FrontEnd) (context : Context) (scope : Definition)
    {paths : List String} (written : List.Forall₂ Import.IsWritten paths scope.imports) :
    (∀ reference read : Reference,
      frontEnd.ReadsIn context scope (paths.map Import.spelled) reference read ↔
        read = qualify (frontEnd.definitionExists context) scope reference) ∧
    ((∀ path ∈ paths, '.' ∈ path.toList) → ∀ reference read : Reference,
      frontEnd.ReadsIn context scope paths reference read ↔
        read = qualify (frontEnd.definitionExists context) scope reference) ∧
    (∀ name, '.' ∉ name.toList → FirstWhere (Spells name) paths name →
      qualifyName (frontEnd.definitionExists context) scope name = "." ++ name) ∧
    ∀ strict origin, scope.ComesFrom strict origin →
      (scope.typeParameterNames = origin.typeParameterNames ∨ ∃ bindings : TypeBindings,
        scope.typeParameterNames = origin.typeParameterNames.filterMap bindings.renamed?) ∧
      (∀ name, qualifyName (frontEnd.definitionExists context) scope name =
        qualifyName (frontEnd.definitionExists context) origin name) ∧
      ∀ reference : Reference,
        (∀ parameter ∈ scope.typeParameterNames,
          parameter ∈ origin.typeParameterNames ∨ parameter ∉ reference.bareNames) →
        qualify (frontEnd.definitionExists context) scope (reference.formal origin) =
          qualify (frontEnd.definitionExists context) origin reference := by
  have simple := Import.IsWritten.simple_of_mem written
  have spells := Import.IsWritten.spells written
  have fullName (name full : String) :
      FullName (frontEnd.definitionExists context) scope.name (paths.map Import.spelled) name full ↔
        full = qualifyName (frontEnd.definitionExists context) scope name := by
    rw [← spells]
    exact fullName_iff simple
  refine ⟨fun reference _ => readsAs_iff fullName reference, fun dotted reference read => ?_,
    fun name plain first => ?_, fun strict origin comesFrom => ?_⟩
  · have same : paths.map Import.spelled = paths := by
      conv_rhs => rw [← List.map_id paths]
      exact List.map_congr_left fun path among => Import.spelled_of_dot (dotted path among)
    rw [same] at fullName
    exact readsAs_iff fullName reference
  · refine ((fullName name _).mp (.single plain ?_)).symm
    rw [← Import.spelled_of_no_dot plain, FirstWhere.map_iff]
    simp only [Spells, Import.simpleName_spelled]
    exact ⟨name, rfl, first⟩
  · have alike := comesFrom.looksUpLike
    exact ⟨comesFrom.typeParameterNames, qualifyName_congr alike, qualify_formal alike⟩

/-- A generic composite that imports the paths. -/
def importing (paths : List String) : Definition :=
  { Definition.ofKind "a.Top" .composite with
    imports := paths.map Import.ofPath
    typeParameters := [⟨"P", none, .generated⟩] }

theorem isWritten_importing (paths : List String) :
    List.Forall₂ Import.IsWritten paths (importing paths).imports :=
  List.forall₂_map_right_iff.mpr (List.forall₂_same.mpr fun _ _ => rfl)

/-- The composite imports a package and a name. -/
def importer : Definition :=
  importing ["lib.*", "x.y.Single"]

/-- Primitives in two packages and in none, and the composite. -/
def packaged : Context :=
  .ofDefinitions .default
    [.ofKind "a.Local" .primitive, .ofKind "lib.Shared" .primitive, .ofKind "Foo" .primitive,
      importer]

/-- A copy in which the value of a parameter stands. -/
def importerCopy : Definition :=
  importer.substitute (Definition.substitutedName importer.name ⟨[("size", .number 1)]⟩)
    ⟨[("size", .number 1)]⟩

/-- The type parameter is bound to one of another name. -/
def relabeling : InstanceRequest :=
  ⟨3, ⟨[("P", .parameter "R")]⟩⟩

/-- An instance that has the other type parameter. -/
def importerInstance : Definition :=
  relabeling.bare packaged (relabeling.instanceName packaged)

theorem importerInstance_comesFrom : importerInstance.ComesFrom False importer :=
  have builds : relabeling.build .predefined InstanceRequest.layers
      (relabeling.instanceName packaged) packaged = (.ok importerInstance, packaged) := rfl
  .instantiated AnnotationRegistry.isHarmless_predefined builds

/-- A reference to a generic definition, with bare names for arguments. -/
def appliedTo (name : String) (arguments : List String) : Reference :=
  ⟨name, [], arguments.map fun argument => ⟨none, .definition (.ofName argument), .generated⟩,
    .generated, none⟩

/-- In a copy names are found by a single import, in the package and by an import on demand. In an
instance they are found as in the generic composite, where its type parameters are written as such. -/
theorem copy_qualifies_as_written :
    List.Forall₂ Import.IsWritten ["lib.*", "x.y.Single"] importerCopy.imports ∧
    (∃ read, registeredOnly.ReadsIn packaged importerCopy ["lib.*", "x.y.Single"]
      (appliedTo "Shared" ["Local", "Single", "P", "Other"]) read ∧
        read.text = "lib.Shared<a.Local, x.y.Single, P, Other>") ∧
    (qualifyName (registeredOnly.definitionExists packaged) importerCopy "Local" = "a.Local") ∧
    List.Forall₂ Import.IsWritten ["lib.*", "x.y.Single"] importerInstance.imports ∧
    importerInstance.typeParameterNames = ["R"] ∧
    qualify (registeredOnly.definitionExists packaged) importerInstance
        ((appliedTo "Shared" ["Local", "P"]).formal importer) =
      qualify (registeredOnly.definitionExists packaged) importer
        (appliedTo "Shared" ["Local", "P"]) := by
  have written : List.Forall₂ Import.IsWritten ["lib.*", "x.y.Single"] importerCopy.imports :=
    isWritten_importing _
  have instanceWritten :
      List.Forall₂ Import.IsWritten ["lib.*", "x.y.Single"] importerInstance.imports :=
    isWritten_importing _
  obtain ⟨-, reads, -, comes⟩ := qualifies_as_written registeredOnly packaged importerCopy written
  obtain ⟨-, names, -⟩ := comes False importer (.copied importer _)
  obtain ⟨-, -, -, instanceComes⟩ :=
    qualifies_as_written registeredOnly packaged importerInstance instanceWritten
  obtain ⟨-, -, alike⟩ := instanceComes False importer importerInstance_comesFrom
  exact ⟨written, ⟨_, (reads (by decide) _ _).mpr rfl, by decide +kernel⟩,
    (names "Local").trans (by decide +kernel), instanceWritten, by decide +kernel,
    alike _ (by decide +kernel)⟩

/-- A composite imports a name from no package. It is read with a dot in front, though there is a
definition of the name. -/
theorem packageless_import_misread :
    ¬registeredOnly.ReadsIn packaged (importing ["Foo"]) ["Foo"] (.ofName "Foo")
      (qualify (registeredOnly.definitionExists packaged) (importing ["Foo"]) (.ofName "Foo")) := by
  have spelled : FirstWhere (Spells "Foo") ["Foo"] "Foo" :=
    ⟨[], [], rfl, by decide, nofun⟩
  have misread : qualifyName (registeredOnly.definitionExists packaged) (importing ["Foo"]) "Foo" =
      ".Foo" := by
    decide +kernel
  have asWritten (full : String) (isFull : FullName (registeredOnly.definitionExists packaged)
      "a.Top" ["Foo"] "Foo" full) : full = "Foo" := by
    cases isFull with
    | dotted | unchanged => rfl
    | single _ first => exact first.unique spelled
    | neighbor _ unspelled | onDemand _ unspelled => exact (unspelled "Foo" spelled).elim
  rw [ReadsIn, Reference.ofName, qualify]
  rintro ⟨isFull, -⟩
  rw [misread] at isFull
  exact absurd (asWritten _ isFull) (by decide)

end FrontEnd

end Adl
