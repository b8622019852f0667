import Adl.Definition.Reference
import Adl.Proofs.Text.Dotted
import Mathlib.Data.List.Forall2

namespace Adl

/-! Imports and the paths they are written with. What an import is kept as does not tell a path
without a package from one that begins with a dot, and reads as the second. -/

namespace Import

/-- The import that is written with the path. Its place in a file does not matter. -/
def IsWritten (path : String) (declaration : Import) : Prop :=
  declaration = { ofPath path with span := declaration.span }

/-- The path that an import is put together to. -/
def path (declaration : Import) : String :=
  declaration.package ++ "." ++ declaration.simpleName

/-- What is put together from a path when it was taken apart. -/
def spelled (path : String) : String :=
  if Text.hasDot path then path else "." ++ path

theorem path_ofPath (path : String) : (ofPath path).path = spelled path := by
  unfold ofPath spelled
  split
  · rename_i package name splits
    obtain ⟨whole, -⟩ := Text.splitLastDot?_eq_some_iff.mp splits
    have dotted : Text.hasDot path = true := Text.hasDot_iff.mpr (by simp [whole])
    rw [if_pos dotted, Import.path, ← String.toList_inj, whole]
    simp
  · rename_i unsplit
    have plain : ¬Text.hasDot path = true := fun dotted =>
      Text.splitLastDot?_eq_none_iff.mp unsplit (Text.hasDot_iff.mp dotted)
    rw [if_neg plain, Import.path, String.empty_append]

theorem simpleName_path {declaration : Import} (simple : '.' ∉ declaration.simpleName.toList) :
    Text.simpleName declaration.path = declaration.simpleName :=
  Text.simpleName_append _ simple

/-- The path of an import on demand. -/
theorem path_eq_onDemand_iff {declaration : Import} (simple : '.' ∉ declaration.simpleName.toList)
    {package : String} :
    declaration.path = package ++ ".*" ↔
      declaration.simpleName = "*" ∧ declaration.package = package := by
  have star : package ++ ".*" = package ++ "." ++ "*" := by
    rw [String.append_assoc]
    rfl
  rw [star]
  constructor
  · intro same
    have split : Text.splitLastDot? declaration.path.toList =
        some (declaration.package.toList, declaration.simpleName.toList) :=
      Text.splitLastDot?_append declaration.package simple
    rw [same, Text.splitLastDot?_append package (by decide)] at split
    obtain ⟨samePackage, isStar⟩ := Prod.mk.inj (Option.some.inj split)
    exact ⟨String.toList_inj.mp isStar.symm, String.toList_inj.mp samePackage.symm⟩
  · rintro ⟨isStar, rfl⟩
    rw [path, isStar]

theorem simpleName_ofPath (path : String) : (ofPath path).simpleName = Text.simpleName path := by
  unfold ofPath Text.simpleName
  cases Text.splitLastDot? path.toList <;> rfl

theorem spelled_of_dot {path : String} (dotted : '.' ∈ path.toList) :
    spelled path = path :=
  if_pos (Text.hasDot_iff.mpr dotted)

theorem spelled_of_no_dot {path : String} (plain : '.' ∉ path.toList) :
    spelled path = "." ++ path :=
  if_neg (Text.hasDot_iff.not.mpr plain)

theorem simpleName_spelled (path : String) :
    Text.simpleName (spelled path) = Text.simpleName path := by
  by_cases dotted : '.' ∈ path.toList
  · rw [spelled_of_dot dotted]
  · have leading : "." ++ path = "" ++ "." ++ path := by rw [String.empty_append]
    rw [spelled_of_no_dot dotted, leading, Text.simpleName_append "" dotted, Text.simpleName,
      Text.splitLastDot?_eq_none_iff.mpr dotted]

namespace IsWritten

variable {path : String} {declaration : Import} {paths : List String} {declarations : List Import}

theorem simple (written : IsWritten path declaration) : '.' ∉ declaration.simpleName.toList := by
  rw [written, simpleName_ofPath]
  exact Text.dot_not_mem_simpleName path

theorem simple_of_mem (written : List.Forall₂ IsWritten paths declarations) :
    ∀ declaration ∈ declarations, '.' ∉ declaration.simpleName.toList := by
  induction written with
  | nil => exact fun _ member => nomatch member
  | cons written _ induction => exact List.forall_mem_cons.mpr ⟨written.simple, induction⟩

theorem spells (written : List.Forall₂ IsWritten paths declarations) :
    declarations.map Import.path = paths.map spelled := by
  induction written with
  | nil => rfl
  | cons written _ induction =>
      rw [List.map_cons, List.map_cons, induction, ← path_ofPath, written]
      rfl

end IsWritten

end Import

end Adl
