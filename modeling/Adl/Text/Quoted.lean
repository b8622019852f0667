import Adl.Text.Unprintable

namespace Adl.Text

/-! Quoted text. A quote and a backslash are preceded by a backslash, the four
common controls have letters of their own, and every other character without a
printed form is written by its code point in hexadecimal. -/

def hexDigits (value : Nat) : List Char :=
  Nat.toDigits 16 value

def quotedCharacter (character : Char) : List Char :=
  match character with
  | '\x00' => ['\\', '0']
  | '\t' => ['\\', 't']
  | '\n' => ['\\', 'n']
  | '\r' => ['\\', 'r']
  | '"' => ['\\', '"']
  | '\\' => ['\\', '\\']
  | _ =>
      if isUnprintable character then
        ['\\', 'u', '{'] ++ hexDigits character.toNat ++ ['}']
      else
        [character]

def quoted (text : String) : String :=
  String.ofList ('"' :: text.toList.flatMap quotedCharacter ++ ['"'])

example : quotedCharacter '\n' = ['\\', 'n'] := rfl

end Adl.Text
