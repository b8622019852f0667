namespace Adl

/-! File paths, compared by their components: repeated and final separators and
inner `.` components do not matter, a leading `./` and a leading `/` do. -/

structure SourcePath where
  text : String
deriving Repr, Inhabited

namespace SourcePath

/-- Splits at every separator. -/
def segments (characters : List Char) : List (List Char) :=
  match characters with
  | [] => [[]]
  | character :: rest =>
      if character = '/' then
        [] :: segments rest
      else
        match segments rest with
        | [] => [[character]]
        | first :: others => (character :: first) :: others

private def isPlain (segment : List Char) : Bool :=
  !(segment == [] || segment == ['.'])

/-- The components; a leading separator counts as one. -/
def components (path : SourcePath) : List String :=
  match segments path.text.toList with
  | [] => []
  | first :: rest =>
      let inner := (rest.filter isPlain).map String.ofList
      if first.isEmpty then
        if rest.isEmpty then [] else "/" :: inner
      else
        String.ofList first :: inner

def isSame (left right : SourcePath) : Bool :=
  left.components == right.components

end SourcePath

end Adl
