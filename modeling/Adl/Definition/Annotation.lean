import Adl.Foundation.MemberSet
import Adl.Foundation.Span
import Adl.Text.Quoted

namespace Adl

/-! Annotations. An element carries the nodes as they were written and, once they
are checked, the typed annotations that were built from them. -/

mutual
inductive AnnotationValue where
  | string (text : String)
  | number (value : Int64)
  | bool (value : Bool)
  | null
  | nested (node : AnnotationNode)
  | array (items : List AnnotationValue)

structure AnnotationArgument where
  name : String
  value : AnnotationValue

structure AnnotationNode where
  typeName : String
  arguments : List AnnotationArgument
  span : Span
end

instance : Inhabited AnnotationValue := ⟨.null⟩

/-! ## Equality -/

mutual
def AnnotationValue.equal : AnnotationValue → AnnotationValue → Bool
  | .string left, .string right => left == right
  | .number left, .number right => left == right
  | .bool left, .bool right => left == right
  | .null, .null => true
  | .nested left, .nested right => left.equal right
  | .array left, .array right => AnnotationValue.equalAll left right
  | _, _ => false

def AnnotationValue.equalAll : List AnnotationValue → List AnnotationValue → Bool
  | [], [] => true
  | left :: lefts, right :: rights =>
      left.equal right && AnnotationValue.equalAll lefts rights
  | _, _ => false

def AnnotationArgument.equalAll :
    List AnnotationArgument → List AnnotationArgument → Bool
  | [], [] => true
  | ⟨leftName, left⟩ :: lefts, ⟨rightName, right⟩ :: rights =>
      leftName == rightName && left.equal right &&
        AnnotationArgument.equalAll lefts rights
  | _, _ => false

def AnnotationNode.equal : AnnotationNode → AnnotationNode → Bool
  | ⟨leftType, lefts, leftSpan⟩, ⟨rightType, rights, rightSpan⟩ =>
      leftType == rightType && AnnotationArgument.equalAll lefts rights &&
        leftSpan == rightSpan
end

mutual
theorem AnnotationValue.equal_iff :
    (left right : AnnotationValue) → (left.equal right = true ↔ left = right)
  | .string _, right => by cases right <;> simp [AnnotationValue.equal]
  | .number _, right => by cases right <;> simp [AnnotationValue.equal]
  | .bool _, right => by cases right <;> simp [AnnotationValue.equal]
  | .null, right => by cases right <;> simp [AnnotationValue.equal]
  | .nested left, right => by
      cases right <;> simp [AnnotationValue.equal]
      exact AnnotationNode.equal_iff left _
  | .array left, right => by
      cases right <;> simp [AnnotationValue.equal]
      exact AnnotationValue.equalAll_iff left _

theorem AnnotationValue.equalAll_iff : (left right : List AnnotationValue) →
    (AnnotationValue.equalAll left right = true ↔ left = right)
  | [], right => by cases right <;> simp [AnnotationValue.equalAll]
  | left :: lefts, right => by
      cases right with
      | nil => simp [AnnotationValue.equalAll]
      | cons right rights =>
          simp [AnnotationValue.equalAll, AnnotationValue.equal_iff left right,
            AnnotationValue.equalAll_iff lefts rights]

theorem AnnotationArgument.equalAll_iff : (left right : List AnnotationArgument) →
    (AnnotationArgument.equalAll left right = true ↔ left = right)
  | [], right => by cases right <;> simp [AnnotationArgument.equalAll]
  | ⟨_, left⟩ :: lefts, right => by
      rcases right with _ | ⟨⟨_, right⟩, rights⟩
      · simp [AnnotationArgument.equalAll]
      · simp [AnnotationArgument.equalAll, AnnotationValue.equal_iff left right,
          AnnotationArgument.equalAll_iff lefts rights]

theorem AnnotationNode.equal_iff :
    (left right : AnnotationNode) → (left.equal right = true ↔ left = right)
  | ⟨_, lefts, _⟩, ⟨_, rights, _⟩ => by
      simp [AnnotationNode.equal, AnnotationArgument.equalAll_iff lefts rights,
        and_assoc]
end

instance : DecidableEq AnnotationValue := fun left right =>
  decidable_of_iff _ (AnnotationValue.equal_iff left right)

instance : DecidableEq AnnotationNode := fun left right =>
  decidable_of_iff _ (AnnotationNode.equal_iff left right)

/-! ## The written form -/

mutual
def AnnotationValue.text : AnnotationValue → String
  | .string text => Text.quoted text
  | .number value => toString value.toInt
  | .bool value => if value then "true" else "false"
  | .null => "null"
  | .nested node => node.text
  | .array items => "\x7b" ++ ", ".intercalate (AnnotationValue.texts items) ++ "\x7d"

def AnnotationValue.texts : List AnnotationValue → List String
  | [] => []
  | item :: rest => item.text :: AnnotationValue.texts rest

def AnnotationArgument.texts : List AnnotationArgument → List String
  | [] => []
  | ⟨name, value⟩ :: rest =>
      (name ++ "=" ++ value.text) :: AnnotationArgument.texts rest

def AnnotationNode.text : AnnotationNode → String
  | ⟨typeName, arguments, _⟩ =>
      if arguments.isEmpty then
        "@" ++ typeName
      else
        "@" ++ typeName ++ "(" ++
          ", ".intercalate (AnnotationArgument.texts arguments) ++ ")"
end

namespace AnnotationNode

def ofType (typeName : String) : AnnotationNode :=
  ⟨typeName, [], .generated⟩

def argument? (node : AnnotationNode) (name : String) : Option AnnotationValue :=
  (node.arguments.find? (·.name == name)).map (·.value)

end AnnotationNode

/-! ## Typed annotations -/

/-- What visiting a probe does besides recording the visit. -/
inductive ProbeEffect where
  | record
  | attribute
  | dropInterfaces
  | fatal
  | log
  | register
deriving DecidableEq, Repr

/-- What an annotation asks for. -/
inductive Directive where
  | mark
  | singleton
  | lifeCycle
  | attributeControl (allowNone : Bool)
  | bindingControl (allowNone : Bool)
  | contentControl
  | cloneable
  | probe (label : String) (effect : ProbeEffect)
deriving DecidableEq, Repr

structure Annotation where
  kind : String
  targets : Targets
  phases : Phases
  isInherited : Bool
  directive : Directive
deriving DecidableEq, Repr

/-- The annotations of one element. Two sets are equal for the program when their
nodes are: typed annotations can be built again. -/
structure Annotations where
  nodes : List AnnotationNode
  typed : List Annotation
deriving DecidableEq

namespace Annotations

def none : Annotations := ⟨[], []⟩

instance : Inhabited Annotations := ⟨none⟩

def isEmpty (annotations : Annotations) : Bool :=
  annotations.nodes.isEmpty

def pushNode (annotations : Annotations) (node : AnnotationNode) : Annotations :=
  { annotations with nodes := annotations.nodes ++ [node] }

/-- Adds an annotation that is already built. -/
def attach (annotations : Annotations) (node : AnnotationNode)
    (built : Annotation) : Annotations :=
  ⟨annotations.nodes ++ [node], annotations.typed ++ [built]⟩

/-- Whether an annotation of this kind is attached, typed or only as a node. -/
def has (annotations : Annotations) (kind : String) : Bool :=
  annotations.typed.any (·.kind == kind) ||
    annotations.nodes.any (·.typeName == kind)

/-- Appends what `right` has of types, and of kinds, not yet present. -/
def union (left right : Annotations) : Annotations :=
  { nodes := right.nodes.foldl (fun nodes node =>
      if nodes.any (·.typeName == node.typeName) then nodes else nodes ++ [node])
      left.nodes
    typed := right.typed.foldl (fun typed built =>
      if typed.any (·.kind == built.kind) then typed else typed ++ [built])
      left.typed }

/-- What an extending definition takes over: the inherited typed annotations and
the nodes that bear one of their kinds. -/
def inherited (annotations : Annotations) : Annotations :=
  let typed := annotations.typed.filter (·.isInherited)
  { nodes := annotations.nodes.filter fun node =>
      typed.any (·.kind == node.typeName)
    typed }

def withoutTyped (annotations : Annotations) : Annotations :=
  { annotations with typed := [] }

def sameNodes (left right : Annotations) : Bool :=
  left.nodes == right.nodes

end Annotations

end Adl
