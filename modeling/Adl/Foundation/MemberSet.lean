namespace Adl

/-! Small sets over closed enumerations, kept as the bits of one 16-bit word.
Bits at which no member stands are carried along: they count in `size` and in
equality, but no query by member sees them. -/

class Member (α : Type) where
  all : List α
  position : α → Nat
  name : α → String

structure MemberSet (α : Type) where
  bits : UInt16
deriving Repr

instance {α : Type} : DecidableEq (MemberSet α) := fun left right =>
  decidable_of_iff (left.bits = right.bits) (by cases left; cases right; simp)

namespace MemberSet

variable {α : Type} [Member α]

def bit (item : α) : UInt16 :=
  1 <<< UInt16.ofNat (Member.position item)

def empty : MemberSet α := ⟨0⟩

def all : MemberSet α :=
  ⟨(1 <<< UInt16.ofNat (Member.all (α := α)).length) - 1⟩

def single (item : α) : MemberSet α := ⟨bit item⟩

def insert (set : MemberSet α) (item : α) : MemberSet α :=
  ⟨set.bits ||| bit item⟩

def erase (set : MemberSet α) (item : α) : MemberSet α :=
  ⟨set.bits &&& ~~~ bit item⟩

def contains (set : MemberSet α) (item : α) : Bool :=
  set.bits &&& bit item != 0

def isEmpty (set : MemberSet α) : Bool :=
  set.bits == 0

/-- The number of bits that are set. -/
def size (set : MemberSet α) : Nat :=
  (List.range 16).countP fun index => set.bits.toNat.testBit index

def union (left right : MemberSet α) : MemberSet α :=
  ⟨left.bits ||| right.bits⟩

def isSubsetOf (left right : MemberSet α) : Bool :=
  left.bits &&& right.bits == left.bits

/-- The members in declaration order. -/
def toList (set : MemberSet α) : List α :=
  (Member.all (α := α)).filter set.contains

def ofList (items : List α) : MemberSet α :=
  items.foldl insert empty

end MemberSet

/-! ## The enumerations -/

/-- A role that a definition can expose. -/
inductive Capability where
  | interfaces
  | components
  | bindings
  | attributes
  | implementation
  | formalParameters
  | formalTypeParameters
  | controllers
  | internalInterfaces
  | imports
deriving DecidableEq, Repr

namespace Capability

def all : List Capability :=
  [.interfaces, .components, .bindings, .attributes, .implementation,
    .formalParameters, .formalTypeParameters, .controllers,
    .internalInterfaces, .imports]

def name : Capability → String
  | .interfaces => "InterfaceContainer"
  | .components => "ComponentContainer"
  | .bindings => "BindingContainer"
  | .attributes => "AttributeContainer"
  | .implementation => "ImplementationContainer"
  | .formalParameters => "FormalParameterContainer"
  | .formalTypeParameters => "FormalTypeParameterContainer"
  | .controllers => "ControllerContainer"
  | .internalInterfaces => "InternalInterfaceContainer"
  | .imports => "ImportContainer"

instance : Member Capability := ⟨all, Capability.ctorIdx, name⟩

end Capability

abbrev Capabilities := MemberSet Capability

/-- A point of loading at which annotations are processed. -/
inductive Phase where
  | afterParsing
  | afterExtends
  | afterChecking
  | onSubComponent
  | afterTemplateInstantiate
  | onTemplateSubComponent
deriving DecidableEq, Repr

namespace Phase

def all : List Phase :=
  [.afterParsing, .afterExtends, .afterChecking, .onSubComponent,
    .afterTemplateInstantiate, .onTemplateSubComponent]

def name : Phase → String
  | .afterParsing => "AFTER_PARSING"
  | .afterExtends => "AFTER_EXTENDS"
  | .afterChecking => "AFTER_CHECKING"
  | .onSubComponent => "ON_SUB_COMPONENT"
  | .afterTemplateInstantiate => "AFTER_TEMPLATE_INSTANTIATE"
  | .onTemplateSubComponent => "ON_TEMPLATE_SUB_COMPONENT"

instance : Member Phase := ⟨all, Phase.ctorIdx, name⟩

end Phase

abbrev Phases := MemberSet Phase

/-- A kind of element that an annotation can be attached to. -/
inductive Target where
  | importDeclaration
  | definition
  | interface
  | attribute
  | component
  | source
  | binding
deriving DecidableEq, Repr

namespace Target

def all : List Target :=
  [.importDeclaration, .definition, .interface, .attribute, .component,
    .source, .binding]

def name : Target → String
  | .importDeclaration => "import"
  | .definition => "definition"
  | .interface => "interface"
  | .attribute => "attribute"
  | .component => "component"
  | .source => "source"
  | .binding => "binding"

instance : Member Target := ⟨all, Target.ctorIdx, name⟩

end Target

abbrev Targets := MemberSet Target

/-- The member that prints as `name`. -/
def Member.ofName? {α : Type} [Member α] (name : String) : Option α :=
  (Member.all (α := α)).find? fun item => Member.name item == name

example : (MemberSet.all : Capabilities).toList = Capability.all := by decide
example : (MemberSet.all : Phases).toList = Phase.all := by decide
example : (MemberSet.all : Targets).toList = Target.all := by decide

end Adl
