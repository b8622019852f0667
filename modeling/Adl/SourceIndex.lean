import Adl.Definition.Reference
import Adl.FrontEnd

namespace Adl

/-! An index of the source files under some roots. A file at `a/b/C.adl` under a root
holds the definition `a.b.C`. -/

/-- What is found at a path below a root. -/
inductive TreeEntry where
  | directory
  | file (bytes : List UInt8)

/-- The contents of a root, by path relative to it. -/
structure SourceTree where
  entries : List (List String × TreeEntry)

namespace SourceTree

/-- Whether a walk that takes the contents of each directory by name comes to the first
path no later than to the second. -/
def precedes : List String → List String → Bool
  | [], _ => true
  | _ :: _, [] => false
  | left :: lefts, right :: rights =>
      if left = right then precedes lefts rights else decide (left ≤ right)

/-- The entries in the order of the walk. -/
def walk (tree : SourceTree) : List (List String × TreeEntry) :=
  tree.entries.mergeSort fun left right => precedes left.1 right.1

end SourceTree

/-- A file under one of the roots. -/
structure IndexedFile where
  root : Nat
  path : List String
  bytes : List UInt8

/-- The files by the name of the definition that they hold. -/
structure SourceIndex where
  files : Table IndexedFile

namespace FileName

/-- Base name and extension. A name has an extension when it has a dot after its
first character. -/
def split (name : String) : String × Option String :=
  match Text.splitLastDot? name.toList with
  | some ([], _) | none => (name, none)
  | some (base, extension) => (String.ofList base, some (String.ofList extension))

example : split "C.adl" = ("C", some "adl") := by decide +kernel
example : split ".adl" = (".adl", none) := by decide +kernel

end FileName

namespace SourceIndex

def isNamePart (part : String) : Bool :=
  !part.isEmpty && !Text.hasDot part

def pathOf (parts : List String) : SourcePath :=
  ⟨"/".intercalate parts⟩

/-- The definition that a file of the given extension holds, if the components of its
path without the extension make a name. -/
def definitionName? (extension : String) (path : List String) : Option String := do
  let (base, found) := FileName.split (← path.getLast?)
  if found == some extension then
    let parts := path.dropLast ++ [base]
    if parts.all isNamePart then some (".".intercalate parts) else none
  else
    none

example : definitionName? "adl" ["a", "C.adl"] = some "a.C" := by decide +kernel
example : definitionName? "adl" ["a.b", "C.adl"] = none := by decide +kernel
example : definitionName? "adl" ["a", "..adl"] = none := by decide +kernel

/-- The files of one root that hold definitions. -/
def named (extension : String) (root : Nat) (tree : SourceTree) :
    List (String × IndexedFile) :=
  tree.walk.filterMap fun (path, entry) =>
    match entry with
    | .directory => none
    | .file bytes =>
        (definitionName? extension path).map (·, ⟨root, path, bytes⟩)

/-- Of files with one name the first is kept. -/
def add (index : SourceIndex) (named : List (String × IndexedFile)) : SourceIndex :=
  named.foldl
    (fun index (name, file) =>
      if index.files.contains name then index else ⟨index.files.insert name file⟩)
    index

/-- The index of the roots; nothing where one of them does not exist. -/
def scan? (extension : String) (roots : List (Option SourceTree)) :
    Option SourceIndex := do
  let trees ← roots.mapM id
  return trees.zipIdx.foldl
    (fun index (tree, root) => index.add (named extension root tree)) ⟨.empty⟩

def names (index : SourceIndex) : List String :=
  index.files.keys.mergeSort

def size (index : SourceIndex) : Nat :=
  index.files.entries.length

def isEmpty (index : SourceIndex) : Bool :=
  index.files.entries.isEmpty

/-- The locator over an index. `rootPath` names a root. A file that is not text exists
but cannot be read. -/
def locator (index : SourceIndex) (rootPath : Nat → String) : SourceLocator :=
  { locate := fun name => do
      let file ← index.files.find? name
      let text ← String.fromUTF8? ⟨file.bytes.toArray⟩
      return { path := pathOf (rootPath file.root :: file.path), text }
    has := index.files.contains }

end SourceIndex

end Adl
