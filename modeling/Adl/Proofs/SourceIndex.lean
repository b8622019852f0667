import Adl.Proofs.Foundation.Table
import Adl.Proofs.Text.Dotted
import Adl.SourceIndex

namespace Adl

open Text

/-! What the index of some roots holds: the files whose paths spell names, each name with the file
of the first root that has one. No two paths spell one name. -/

/-! ## Paths and names -/

namespace FileName

/-- A name with an extension is a base name, a dot, and the extension, which has no dot. -/
theorem split_eq_some_iff {name base extension : String} :
    split name = (base, some extension) ↔
      name = base ++ "." ++ extension ∧ base ≠ "" ∧ '.' ∉ extension.toList := by
  constructor
  · intro splits
    unfold split at splits
    split at splits
    · exact nomatch splits
    · exact nomatch splits
    · rename_i before after notHidden found
      cases splits
      obtain ⟨whole, plain⟩ := splitLastDot?_eq_some_iff.mp found
      refine ⟨String.toList_inj.mp (by simp [whole]), ?_, by simpa using plain⟩
      intro none
      exact notHidden (by simpa using congrArg String.toList none)
  · rintro ⟨rfl, nonempty, plain⟩
    unfold split
    rw [splitLastDot?_append base plain]
    split
    · rename_i hidden
      simp only [Option.some.injEq, Prod.mk.injEq] at hidden
      exact absurd (String.toList_inj.mp hidden.1) nonempty
    · rename_i unsplit
      exact nomatch unsplit
    · rename_i found
      cases found
      simp

end FileName

namespace SourceIndex

variable {extension name other : String} {path : List String} {root : Nat} {file : IndexedFile}

/-- The path leads to a file of the extension, and its components, the last one without the
extension, make the name when they are joined by dots. -/
def Spells (extension : String) (path : List String) (name : String) : Prop :=
  ∃ folders base, path = folders ++ [base ++ "." ++ extension] ∧ '.' ∉ extension.toList ∧
    (∀ part ∈ folders ++ [base], part ≠ "" ∧ '.' ∉ part.toList) ∧
    name = ".".intercalate (folders ++ [base])

theorem isNamePart_iff {part : String} :
    isNamePart part = true ↔ part ≠ "" ∧ '.' ∉ part.toList := by
  simp [isNamePart, ← hasDot_iff]

theorem definitionName?_append (folders : List String) (file : String) :
    definitionName? extension (folders ++ [file]) =
      let (base, found) := FileName.split file
      if found = some extension ∧ ∀ part ∈ folders ++ [base], part ≠ "" ∧ '.' ∉ part.toList then
        some (".".intercalate (folders ++ [base]))
      else none := by
  simp only [definitionName?, List.getLast?_concat, List.dropLast_concat, Option.bind_eq_bind,
    Option.bind_some, beq_iff_eq, List.all_eq_true, isNamePart_iff]
  rw [ite_and]

theorem definitionName?_eq_some_iff :
    definitionName? extension path = some name ↔ Spells extension path name := by
  constructor
  · intro named
    rcases List.eq_nil_or_concat' path with rfl | ⟨folders, file, rfl⟩
    · exact nomatch named
    · rw [definitionName?_append] at named
      split at named
      rename_i base found splits
      split at named
      · rename_i holds
        obtain ⟨rfl, parts⟩ := holds
        obtain ⟨rfl, -, plain⟩ := FileName.split_eq_some_iff.mp splits
        exact ⟨folders, base, rfl, plain, parts, (Option.some.inj named).symm⟩
      · exact nomatch named
  · rintro ⟨folders, base, rfl, plain, parts, rfl⟩
    have nonempty := (parts base (List.mem_append_right _ List.mem_cons_self)).1
    rw [definitionName?_append, FileName.split_eq_some_iff.mpr ⟨rfl, nonempty, plain⟩]
    exact if_pos ⟨rfl, parts⟩

/-- A name without empty parts is cut at its dots in one way. -/
theorem intercalate_dot_inj {left right : List String} (leftSome : left ≠ [])
    (rightSome : right ≠ []) (leftPlain : ∀ part ∈ left, '.' ∉ part.toList)
    (rightPlain : ∀ part ∈ right, '.' ∉ part.toList)
    (same : ".".intercalate left = ".".intercalate right) : left = right := by
  have characters : ['.'].intercalate (left.map String.toList) =
      ['.'].intercalate (right.map String.toList) := by
    simpa using congrArg String.toList same
  have cut := congrArg (List.splitOn '.') characters
  rw [List.splitOn_intercalate _ (by simpa using leftPlain) (by simpa using leftSome),
    List.splitOn_intercalate _ (by simpa using rightPlain) (by simpa using rightSome)] at cut
  exact List.map_injective_iff.mpr (fun _ _ => String.toList_inj.mp) cut

/-- Two files of one extension do not compete for a name. -/
theorem Spells.path_eq {another : List String} (spells : Spells extension path name)
    (spellsToo : Spells extension another name) : path = another := by
  obtain ⟨folders, base, rfl, -, parts, rfl⟩ := spells
  obtain ⟨otherFolders, otherBase, rfl, -, otherParts, same⟩ := spellsToo
  have joined := intercalate_dot_inj (by simp) (by simp) (fun part member => (parts part member).2)
    (fun part member => (otherParts part member).2) same
  obtain ⟨rfl, bases⟩ := List.append_inj' joined rfl
  cases bases
  rfl

theorem Spells.name_eq (spells : Spells extension path name)
    (spellsToo : Spells extension path other) : name = other := by
  rw [← definitionName?_eq_some_iff] at spells spellsToo
  exact Option.some.inj (spells.symm.trans spellsToo)

end SourceIndex

/-! ## One root -/

namespace SourceTree

/-- The file at a path, as the walk lists it. -/
def fileAt? (tree : SourceTree) (path : List String) : Option (List UInt8) :=
  tree.walk.findSome? fun (other, entry) =>
    match entry with
    | .directory => none
    | .file bytes => if other = path then some bytes else none

theorem exists_fileAt?_iff {tree : SourceTree} {path : List String} :
    (∃ bytes, tree.fileAt? path = some bytes) ↔ ∃ bytes, (path, .file bytes) ∈ tree.entries := by
  have isPerm : tree.walk.Perm tree.entries := List.mergeSort_perm _ _
  rw [← Option.isSome_iff_exists, fileAt?, List.findSome?_isSome_iff]
  constructor
  · rintro ⟨⟨other, _ | bytes⟩, member, holds⟩
    · exact nomatch holds
    · dsimp only at holds
      split at holds
      · rename_i same
        exact ⟨bytes, same ▸ isPerm.mem_iff.mp member⟩
      · exact nomatch holds
  · rintro ⟨bytes, member⟩
    exact ⟨_, isPerm.mem_iff.mpr member, by simp⟩

end SourceTree

namespace SourceIndex

open Table

variable {extension name other : String} {path : List String} {root : Nat} {file : IndexedFile}

/-- What is found under a name is the file at the path that spells it. -/
theorem findEntry_named_iff {tree : SourceTree} :
    findEntry name (named extension root tree) = some file ↔
      file.root = root ∧ tree.fileAt? file.path = some file.bytes ∧
        Spells extension file.path name := by
  unfold named SourceTree.fileAt?
  induction tree.walk with
  | nil => simp [findEntry]
  | cons entry rest induction =>
      obtain ⟨path, _ | bytes⟩ := entry
      · simpa using induction
      · cases named : definitionName? extension path with
        | none =>
            rw [List.filterMap_cons_none (by simp [named]), induction]
            refine and_congr_right fun _ => and_congr_left fun spells => ?_
            have different : path ≠ file.path := by
              rintro rfl
              rw [definitionName?_eq_some_iff.mpr spells] at named
              cases named
            simp [different]
        | some spelled =>
            have spells := definitionName?_eq_some_iff.mp named
            rw [List.filterMap_cons_some (b := (spelled, ⟨root, path, bytes⟩)) (by simp [named]),
              findEntry]
            by_cases same : spelled = name
            · subst same
              rw [if_pos rfl]
              constructor
              · intro found
                cases found
                exact ⟨rfl, by simp, spells⟩
              · rintro ⟨isRoot, found, spellsToo⟩
                have samePath := spells.path_eq spellsToo
                simp only [List.findSome?_cons, samePath, if_true] at found
                cases file
                simp_all
            · rw [if_neg same, induction]
              refine and_congr_right fun _ => and_congr_left fun spellsToo => ?_
              have different : path ≠ file.path := by
                rintro rfl
                exact same (spells.name_eq spellsToo)
              simp [different]

theorem findEntry_named_eq_none_iff {tree : SourceTree} :
    findEntry name (named extension root tree) = none ↔
      ∀ path, Spells extension path name → tree.fileAt? path = none := by
  rw [Option.eq_none_iff_forall_ne_some]
  constructor
  · intro absent path spells
    rw [Option.eq_none_iff_forall_ne_some]
    intro bytes found
    exact absent ⟨root, path, bytes⟩ (findEntry_named_iff.mpr ⟨rfl, found, spells⟩)
  · intro absent file found
    obtain ⟨-, present, spells⟩ := findEntry_named_iff.mp found
    rw [absent file.path spells] at present
    exact nomatch present

/-! ## All roots -/

/-- Files are added behind those that are there. -/
theorem find?_add (index : SourceIndex) (files : List (String × IndexedFile)) (name : String) :
    (index.add files).files.find? name = (index.files.find? name).or (findEntry name files) := by
  unfold add
  induction files generalizing index with
  | nil => simp [findEntry]
  | cons entry rest induction =>
      obtain ⟨key, file⟩ := entry
      rw [List.foldl_cons, induction]
      by_cases known : index.files.contains key = true
      · by_cases same : key = name
        · obtain ⟨kept, found⟩ := contains_eq_true_iff.mp known
          subst same
          simp [known, found]
        · simp [known, findEntry, same]
      · have absent := find?_eq_none_of_not_contains (Bool.not_eq_true _ ▸ known)
        by_cases same : key = name
        · subst same
          simp [known, findEntry, absent]
        · simp [known, findEntry, same]

/-- The files of all roots, those of the first root first. -/
def filesOf (extension : String) (trees : List SourceTree) : List (String × IndexedFile) :=
  trees.zipIdx.flatMap fun (tree, root) => named extension root tree

theorem scan?_eq (extension : String) (trees : List SourceTree) :
    scan? extension (trees.map some) = some (add ⟨.empty⟩ (filesOf extension trees)) := by
  have all : (trees.map some).mapM id = some trees := by
    rw [List.mapM_map]
    exact List.mapM_pure.trans (congrArg some (List.map_id' trees))
  simp only [scan?, all, Option.bind_eq_bind, Option.bind_some, filesOf, add, List.foldl_flatMap]
  rfl

theorem findEntry_filesOf_append (trees : List SourceTree) (tree : SourceTree) :
    findEntry name (filesOf extension (trees ++ [tree])) =
      (findEntry name (filesOf extension trees)).or
        (findEntry name (named extension trees.length tree)) := by
  simp [filesOf, List.zipIdx_append, findEntry_append]

theorem findEntry_filesOf_eq_none_iff {trees : List SourceTree} :
    findEntry name (filesOf extension trees) = none ↔
      ∀ tree ∈ trees, ∀ path, Spells extension path name → tree.fileAt? path = none := by
  induction trees using List.reverseRecOn with
  | nil => simp [filesOf, findEntry]
  | append_singleton trees tree induction =>
      rw [findEntry_filesOf_append, Option.or_eq_none_iff, induction, findEntry_named_eq_none_iff]
      simp [or_imp, forall_and]

/-- The first root that has a file for a name gives it. -/
theorem findEntry_filesOf_iff {trees : List SourceTree} :
    findEntry name (filesOf extension trees) = some file ↔
      ∃ tree, trees[file.root]? = some tree ∧ tree.fileAt? file.path = some file.bytes ∧
        Spells extension file.path name ∧
        ∀ earlier ∈ trees.take file.root, ∀ path, Spells extension path name →
          earlier.fileAt? path = none := by
  induction trees using List.reverseRecOn with
  | nil => simp [filesOf, findEntry]
  | append_singleton trees tree induction =>
      rw [findEntry_filesOf_append, Option.or_eq_some_iff, induction,
        findEntry_filesOf_eq_none_iff, findEntry_named_iff]
      rcases Nat.lt_trichotomy file.root trees.length with early | isLast | beyond
      · rw [List.getElem?_append_left early, List.take_append_of_le_length (Nat.le_of_lt early)]
        simp [Nat.ne_of_lt early]
      · simp [isLast, and_comm, and_left_comm, and_assoc]
      · have absent : trees[file.root]? = none := by simp; omega
        have absentToo : (trees ++ [tree])[file.root]? = none := by simp; omega
        simp [absent, absentToo, Nat.ne_of_gt beyond]

/-- The index of some roots has a name exactly if the path of a file under one of them spells it;
the file is that of the first such root, in which no other competes for the name. -/
theorem scan_indexes_exactly (extension : String) (trees : List SourceTree) :
    ∃ index, scan? extension (trees.map some) = some index ∧
      (∀ name, index.files.contains name = true ↔
        ∃ tree ∈ trees, ∃ path, Spells extension path name ∧
          ∃ bytes, (path, .file bytes) ∈ tree.entries) ∧
      (∀ name file, index.files.find? name = some file ↔
        ∃ tree, trees[file.root]? = some tree ∧ tree.fileAt? file.path = some file.bytes ∧
          Spells extension file.path name ∧
          ∀ earlier ∈ trees.take file.root, ∀ path, Spells extension path name →
            earlier.fileAt? path = none) ∧
      ∀ name path another, Spells extension path name → Spells extension another name →
        path = another := by
  have found (name : String) : (add ⟨.empty⟩ (filesOf extension trees)).files.find? name =
      findEntry name (filesOf extension trees) := by
    simp [find?_add]
  refine ⟨_, scan?_eq extension trees, fun name => ?_, fun name file => ?_,
    fun name path another spells spellsToo => spells.path_eq spellsToo⟩
  · rw [Table.contains, found, Option.isSome_iff_ne_none, ne_eq, findEntry_filesOf_eq_none_iff]
    simp [← SourceTree.exists_fileAt?_iff, Option.ne_none_iff_exists']
  · rw [found, findEntry_filesOf_iff]

end SourceIndex

end Adl
