import Adl.Proofs.Foundation.Additions

namespace Adl

/-! Structural merge. Two definitions merge unless a single value of one contradicts that of the
other: a name or an origin. What they merge to then takes these from the side that has them and
all else from both, so that of three definitions any two may be merged first. -/

/-! ## Single values -/

/-- Two values are the same, or one of them is missing. -/
def Agrees {α : Type} (missing left right : α) : Prop :=
  left = missing ∨ right = missing ∨ left = right

/-- The value of the side that has one, of the left if both have. -/
def firstGiven {α : Type} [DecidableEq α] (missing left right : α) : α :=
  if left = missing then right else left

section Single

variable {α : Type} [DecidableEq α] (missing first second third : α)

theorem firstGiven_assoc :
    firstGiven missing (firstGiven missing first second) third =
      firstGiven missing first (firstGiven missing second third) := by
  unfold firstGiven
  by_cases absent : first = missing <;> simp [absent]

/-- Three values agree if two of them do and the third with what these come to. -/
theorem agrees_firstGiven_left :
    Agrees missing first second ∧ Agrees missing (firstGiven missing first second) third ↔
      Agrees missing first second ∧ Agrees missing first third ∧ Agrees missing second third := by
  unfold Agrees firstGiven
  grind

theorem agrees_firstGiven_right :
    Agrees missing second third ∧ Agrees missing first (firstGiven missing second third) ↔
      Agrees missing first second ∧ Agrees missing first third ∧ Agrees missing second third := by
  unfold Agrees firstGiven
  grind

end Single

theorem Span.orElse_assoc (first second third : Span) :
    (first.orElse second).orElse third = first.orElse (second.orElse third) := by
  unfold Span.orElse
  cases generated : first.isGenerated <;> simp [generated]

theorem MemberSet.union_assoc {α : Type} (first second third : MemberSet α) :
    (first.union second).union third = first.union (second.union third) :=
  congrArg MemberSet.mk (UInt16.or_assoc ..)

theorem Annotations.union_assoc (first second third : Annotations) :
    (first.union second).union third = first.union (second.union third) := by
  simp only [union_eq, addNew.assoc]

theorem appendNew_assoc (first second third : List String) :
    appendNew (appendNew first second) third = appendNew first (appendNew second third) := by
  simp only [appendNew_eq, addNew.assoc]

theorem bind_eq_ok_iff {ε α β : Type} {step : Except ε α} {next : α → Except ε β} {result : β} :
    (step >>= next) = .ok result ↔ ∃ value, step = .ok value ∧ next value = .ok result := by
  cases step <;> simp [bind, Except.bind]

/-! ## What two definitions merge to -/

namespace Decorations

def united (left right : Decorations) : Decorations where
  extendsMerged := left.extendsMerged || right.extendsMerged
  singleton := left.singleton || right.singleton
  templateOf := firstGiven .none left.templateOf right.templateOf
  partiallyInstantiated := left.partiallyInstantiated || right.partiallyInstantiated
  substitutedFrom := firstGiven .none left.substitutedFrom right.substitutedFrom
  sharedImplementations := appendNew left.sharedImplementations right.sharedImplementations

theorem mergeOrigin_eq_ok_iff {field : String} {left right merged : Option String} :
    mergeOrigin field left right = .ok merged ↔
      Agrees .none left right ∧ merged = firstGiven .none left right := by
  unfold mergeOrigin Agrees firstGiven
  cases left <;> cases right <;> grind

theorem merge_eq_ok_iff {left right merged : Decorations} :
    left.merge right = .ok merged ↔ (Agrees .none left.templateOf right.templateOf ∧
      Agrees .none left.substitutedFrom right.substitutedFrom) ∧ merged = left.united right := by
  simp only [merge, bind_eq_ok_iff, mergeOrigin_eq_ok_iff]
  constructor
  · rintro ⟨_, ⟨template, rfl⟩, _, ⟨substituted, rfl⟩, succeeds⟩
    cases succeeds
    exact ⟨⟨template, substituted⟩, rfl⟩
  · rintro ⟨⟨template, substituted⟩, rfl⟩
    exact ⟨_, ⟨template, rfl⟩, _, ⟨substituted, rfl⟩, rfl⟩

theorem united_assoc (first second third : Decorations) :
    (first.united second).united third = first.united (second.united third) := by
  simp only [united, Bool.or_assoc, firstGiven_assoc, appendNew_assoc]

end Decorations

namespace Definition

/-- Neither the names of two definitions nor their origins contradict each other. -/
structure Compatible (left right : Definition) : Prop where
  name : Agrees "" left.name right.name
  templateOf : Agrees none left.decorations.templateOf right.decorations.templateOf
  substitutedFrom : Agrees none left.decorations.substitutedFrom right.decorations.substitutedFrom

def united (base overlay : Definition) : Definition where
  name := firstGiven "" base.name overlay.name
  span := base.span.orElse overlay.span
  capabilities := base.capabilities.union overlay.capabilities
  isAbstract := base.isAbstract || overlay.isAbstract
  imports := base.imports ++ overlay.imports
  parents := base.parents ++ overlay.parents
  parameters := base.parameters ++ overlay.parameters
  typeParameters := base.typeParameters ++ overlay.typeParameters
  interfaces := base.interfaces ++ overlay.interfaces
  internalInterfaces := base.internalInterfaces ++ overlay.internalInterfaces
  attributes := base.attributes ++ overlay.attributes
  components := base.components ++ overlay.components
  bindings := base.bindings ++ overlay.bindings
  sources := base.sources ++ overlay.sources
  controllers := base.controllers ++ overlay.controllers
  annotations := base.annotations.union overlay.annotations
  decorations := base.decorations.united overlay.decorations

theorem mergeName_eq_ok_iff {left right merged : String} :
    mergeName left right = .ok merged ↔
      Agrees "" left right ∧ merged = firstGiven "" left right := by
  unfold mergeName Agrees firstGiven
  simp only [Bool.or_eq_true, String.isEmpty_iff, beq_iff_eq]
  grind

theorem merge_eq_ok_iff {base overlay merged : Definition} :
    base.merge overlay = .ok merged ↔ base.Compatible overlay ∧ merged = base.united overlay := by
  simp only [merge, bind_eq_ok_iff, mergeName_eq_ok_iff, Decorations.merge_eq_ok_iff]
  constructor
  · rintro ⟨_, ⟨name, rfl⟩, _, ⟨⟨template, substituted⟩, rfl⟩, succeeds⟩
    cases succeeds
    exact ⟨⟨name, template, substituted⟩, rfl⟩
  · rintro ⟨compatible, rfl⟩
    exact ⟨_, ⟨compatible.name, rfl⟩, _,
      ⟨⟨compatible.templateOf, compatible.substitutedFrom⟩, rfl⟩, rfl⟩

/-! ## Three definitions -/

theorem united_assoc (first second third : Definition) :
    (first.united second).united third = first.united (second.united third) := by
  simp only [united, firstGiven_assoc, Span.orElse_assoc, MemberSet.union_assoc, Bool.or_assoc,
    List.append_assoc, Annotations.union_assoc, Decorations.united_assoc]

variable {first second third merged : Definition}

/-- No two of three definitions contradict each other. -/
def AllCompatible (first second third : Definition) : Prop :=
  first.Compatible second ∧ first.Compatible third ∧ second.Compatible third

theorem compatible_united_left : first.Compatible second ∧ (first.united second).Compatible third ↔
    AllCompatible first second third := by
  constructor
  · rintro ⟨both, all⟩
    obtain ⟨-, names⟩ := (agrees_firstGiven_left ..).mp ⟨both.name, all.name⟩
    obtain ⟨-, templates⟩ := (agrees_firstGiven_left ..).mp ⟨both.templateOf, all.templateOf⟩
    obtain ⟨-, originals⟩ :=
      (agrees_firstGiven_left ..).mp ⟨both.substitutedFrom, all.substitutedFrom⟩
    exact ⟨both, ⟨names.1, templates.1, originals.1⟩, names.2, templates.2, originals.2⟩
  · rintro ⟨both, outer, later⟩
    obtain ⟨-, name⟩ := (agrees_firstGiven_left ..).mpr ⟨both.name, outer.name, later.name⟩
    obtain ⟨-, template⟩ :=
      (agrees_firstGiven_left ..).mpr ⟨both.templateOf, outer.templateOf, later.templateOf⟩
    obtain ⟨-, original⟩ := (agrees_firstGiven_left ..).mpr
      ⟨both.substitutedFrom, outer.substitutedFrom, later.substitutedFrom⟩
    exact ⟨both, name, template, original⟩

theorem compatible_united_right : second.Compatible third ∧ first.Compatible (second.united third) ↔
    AllCompatible first second third := by
  constructor
  · rintro ⟨both, all⟩
    obtain ⟨name, outerName, -⟩ := (agrees_firstGiven_right ..).mp ⟨both.name, all.name⟩
    obtain ⟨template, outerTemplate, -⟩ :=
      (agrees_firstGiven_right ..).mp ⟨both.templateOf, all.templateOf⟩
    obtain ⟨original, outerOriginal, -⟩ :=
      (agrees_firstGiven_right ..).mp ⟨both.substitutedFrom, all.substitutedFrom⟩
    exact ⟨⟨name, template, original⟩, ⟨outerName, outerTemplate, outerOriginal⟩, both⟩
  · rintro ⟨earlier, outer, both⟩
    obtain ⟨-, name⟩ := (agrees_firstGiven_right ..).mpr ⟨earlier.name, outer.name, both.name⟩
    obtain ⟨-, template⟩ :=
      (agrees_firstGiven_right ..).mpr ⟨earlier.templateOf, outer.templateOf, both.templateOf⟩
    obtain ⟨-, original⟩ := (agrees_firstGiven_right ..).mpr
      ⟨earlier.substitutedFrom, outer.substitutedFrom, both.substitutedFrom⟩
    exact ⟨both, name, template, original⟩

theorem merge_left_eq_ok_iff : (do (← first.merge second).merge third) = .ok merged ↔
    AllCompatible first second third ∧ merged = first.united (second.united third) := by
  simp only [bind_eq_ok_iff, merge_eq_ok_iff]
  rw [← compatible_united_left, ← united_assoc]
  constructor
  · rintro ⟨_, ⟨both, rfl⟩, all, rfl⟩
    exact ⟨⟨both, all⟩, rfl⟩
  · rintro ⟨⟨both, all⟩, rfl⟩
    exact ⟨_, ⟨both, rfl⟩, all, rfl⟩

theorem merge_right_eq_ok_iff : (do first.merge (← second.merge third)) = .ok merged ↔
    AllCompatible first second third ∧ merged = first.united (second.united third) := by
  simp only [bind_eq_ok_iff, merge_eq_ok_iff]
  rw [← compatible_united_right]
  constructor
  · rintro ⟨_, ⟨both, rfl⟩, all, rfl⟩
    exact ⟨⟨both, all⟩, rfl⟩
  · rintro ⟨⟨both, all⟩, rfl⟩
    exact ⟨_, ⟨both, rfl⟩, all, rfl⟩

/-- Of three definitions any two that stand side by side may be merged first: both ways succeed
with the same definition, or both fail. They succeed where no two of the three contradict each
other. -/
theorem merge_assoc (first second third : Definition) :
    (∀ merged, (do (← first.merge second).merge third) = .ok merged ↔
      (do first.merge (← second.merge third)) = .ok merged) ∧
    ((∃ merged, (do (← first.merge second).merge third) = .ok merged) ↔
      AllCompatible first second third) := by
  refine ⟨fun merged => merge_left_eq_ok_iff.trans merge_right_eq_ok_iff.symm, ?_⟩
  simp only [merge_left_eq_ok_iff]
  exact ⟨fun ⟨_, compatible, _⟩ => compatible, fun compatible => ⟨_, compatible, rfl⟩⟩

end Definition

end Adl
