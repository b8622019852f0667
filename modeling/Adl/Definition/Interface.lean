import Adl.Definition.Annotation

namespace Adl

/-! Interfaces: the points at which components are bound to each other. -/

/-- The direction of an interface, seen from outside its component. -/
inductive Role where
  | client
  | server
deriving DecidableEq, Repr

def Role.flipped : Role → Role
  | .client => .server
  | .server => .client

inductive Contingency where
  | mandatory
  | optional
deriving DecidableEq, Repr

inductive Cardinality where
  | singleton
  | collection (size : Option UInt32)
deriving DecidableEq, Repr

structure Interface where
  name : String
  role : Role
  signature : String
  cardinality : Cardinality
  contingency : Contingency
  span : Span
  annotations : Annotations
  /-- The interface on the other side of the membrane. -/
  delegate : Option String
  /-- Whether a controller of the membrane implements it. -/
  isController : Bool
deriving DecidableEq

namespace Interface

/-- A mandatory interface of one element, declared nowhere. -/
def ofRole (role : Role) (name signature : String) : Interface :=
  { name, role, signature
    cardinality := .singleton
    contingency := .mandatory
    span := .generated
    annotations := .none
    delegate := none
    isController := false }

def isClient (interface : Interface) : Bool :=
  interface.role == .client

def isServer (interface : Interface) : Bool :=
  interface.role == .server

def isMandatory (interface : Interface) : Bool :=
  interface.contingency == .mandatory

def isOptional (interface : Interface) : Bool :=
  interface.contingency == .optional

def isSingleton (interface : Interface) : Bool :=
  interface.cardinality == .singleton

def isCollection (interface : Interface) : Bool :=
  !interface.isSingleton

/-- The number of elements, unknown for a collection without a size. -/
def elementCount? (interface : Interface) : Option Nat :=
  match interface.cardinality with
  | .singleton => some 1
  | .collection size => size.map UInt32.toNat

/-- The interface seen from the other side of the membrane. -/
def dual (interface : Interface) : Interface :=
  { interface with
    role := interface.role.flipped
    annotations := .none
    delegate := some interface.name
    isController := false }

def withoutTyped (interface : Interface) : Interface :=
  { interface with annotations := interface.annotations.withoutTyped }

/-- Equality up to typed annotations. -/
def isSame (left right : Interface) : Bool :=
  left.withoutTyped == right.withoutTyped

end Interface

end Adl
