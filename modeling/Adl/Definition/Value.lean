import Adl.Text.Quoted

namespace Adl

/-! Parameter values and the types that are inferred for parameters. -/

inductive Value where
  | string (text : String)
  | number (value : Int64)
  | reference (parameter : String)
  | null
deriving DecidableEq, Repr, Inhabited

namespace Value

def isLiteral : Value → Bool
  | .reference _ => false
  | _ => true

def reference? : Value → Option String
  | .reference parameter => some parameter
  | _ => none

def text : Value → String
  | .string text => Text.quoted text
  | .number value => toString value.toInt
  | .reference parameter => parameter
  | .null => "null"

end Value

inductive ParameterType where
  | string
  | integer
deriving DecidableEq, Repr

namespace ParameterType

/-- Attributes of every type but `string` hold integers. -/
def ofAttributeType (typeName : String) : ParameterType :=
  if typeName = "string" then .string else .integer

/-- The type of a literal; `null` is a string. -/
def ofLiteral? : Value → Option ParameterType
  | .string _ | .null => some .string
  | .number _ => some .integer
  | .reference _ => none

def accepts (type : ParameterType) (value : Value) : Bool :=
  ofLiteral? value == some type

def default : ParameterType → Value
  | .string => .null
  | .integer => .number 0

def name : ParameterType → String
  | .string => "string"
  | .integer => "integer"

theorem accepts_default (type : ParameterType) : type.accepts type.default = true := by
  cases type <;> rfl

end ParameterType

end Adl
