namespace Adl.Text

/-! Texts measured in the bytes of their UTF-8 form. -/

def byteLength : List Char → Nat
  | [] => 0
  | character :: rest => character.utf8Size + byteLength rest

/-- What follows the first `count` bytes, where that is a character boundary. -/
def dropBytes? : Nat → List Char → Option (List Char)
  | 0, characters => some characters
  | _ + 1, [] => none
  | count + 1, character :: rest =>
      if character.utf8Size ≤ count + 1 then
        dropBytes? (count + 1 - character.utf8Size) rest
      else
        none

/-- The first `count` bytes, where they end at a character boundary. -/
def takeBytes? : Nat → List Char → Option (List Char)
  | 0, _ => some []
  | _ + 1, [] => none
  | count + 1, character :: rest =>
      if character.utf8Size ≤ count + 1 then
        (takeBytes? (count + 1 - character.utf8Size) rest).map (character :: ·)
      else
        none

/-- The text between two byte offsets, where both are character boundaries and
the first is not beyond the second. -/
def slice? (characters : List Char) (start stop : Nat) : Option (List Char) :=
  if start ≤ stop then do
    takeBytes? (stop - start) (← dropBytes? start characters)
  else
    none

end Adl.Text
