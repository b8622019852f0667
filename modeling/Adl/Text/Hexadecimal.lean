namespace Adl.Text

/-! Bytes written as pairs of hexadecimal digits, the high one first. -/

def digitValue? (digit : Char) : Option Nat :=
  if '0' ≤ digit && digit ≤ '9' then some (digit.toNat - 48)
  else if 'a' ≤ digit && digit ≤ 'f' then some (digit.toNat - 87)
  else if 'A' ≤ digit && digit ≤ 'F' then some (digit.toNat - 55)
  else none

def bytesOfDigits? : List Char → Option (List UInt8)
  | [] => some []
  | [_] => none
  | high :: low :: rest => do
      let byte := (← digitValue? high) * 16 + (← digitValue? low)
      return UInt8.ofNat byte :: (← bytesOfDigits? rest)

def digitsOfByte (byte : UInt8) : List Char :=
  [Nat.digitChar (byte.toNat / 16), Nat.digitChar (byte.toNat % 16)]

def hexOfBytes (bytes : List UInt8) : String :=
  String.ofList (bytes.flatMap digitsOfByte)

def bytesOfHex? (text : String) : Option (List UInt8) :=
  bytesOfDigits? text.toList

end Adl.Text
