namespace Adl.Hoisted

/-! Names of parameters that stand for a parameter of a type argument. -/

def separator : Char := '$'

/-- The parameter `parameter` of what is bound to `typeParameter`. -/
def name (typeParameter parameter : String) : String :=
  typeParameter ++ String.singleton separator ++ parameter

def isHoisted (name : String) : Bool :=
  name.toList.contains separator

end Adl.Hoisted
