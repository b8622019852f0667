namespace Adl.Text

/-! Dotted names: a package, a dot, and a simple name. -/

/-- The text before and after the last dot. -/
def splitLastDot? (characters : List Char) : Option (List Char × List Char) :=
  match characters with
  | [] => none
  | character :: rest =>
      match splitLastDot? rest with
      | some (before, after) => some (character :: before, after)
      | none => if character = '.' then some ([], rest) else none

def hasDot (name : String) : Bool :=
  name.toList.contains '.'

/-- What follows the last dot, or the whole name. -/
def simpleName (name : String) : String :=
  match splitLastDot? name.toList with
  | some (_, after) => String.ofList after
  | none => name

end Adl.Text
