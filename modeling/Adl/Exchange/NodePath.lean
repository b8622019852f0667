import Adl.Definition.NodePath
import Adl.Text.Json

namespace Adl.NodePath

/-! The form in which other tools name the position of an element: the list that the
element is in, with the position there. -/

def inList? (name : String) (index : Nat) : Option NodePath :=
  match name with
  | "interface" => some (.interface index)
  | "internal" => some (.internalInterface index)
  | "attribute" => some (.attribute index)
  | "component" => some (.component index)
  | "binding" => some (.binding index)
  | "source" => some (.source index)
  | _ => none

def ofJson? : Json → Option NodePath
  | .array [.string "definition"] => some .definition
  | .array [.string name, index] => do inList? name (← index.natural?)
  | _ => none

end Adl.NodePath
