namespace Adl

/-! Values of the data notation in which options, signatures and reports are
written. A number is an integer when its literal has neither fraction nor exponent
and its value fits 64 bits. What a string stands for is unreadable when its escapes
denote no text: such a value can be skipped but not read. -/

inductive Json where
  | null
  | bool (value : Bool)
  | integer (value : Int)
  | real (literal : String)
  | string (text : String)
  | unreadable
  | array (items : List Json)
  | object (fields : List (String × Json))

namespace Json

instance : Inhabited Json := ⟨.null⟩

/-! ## Reading

Each reader takes the characters that are left and gives the value with the
characters that follow it. -/

private def isBlank (character : Char) : Bool :=
  character == ' ' || character == '\t' || character == '\n' || character == '\r'

private def skipBlanks (characters : List Char) : List Char :=
  characters.dropWhile isBlank

private def hexDigit? (character : Char) : Option Nat :=
  if '0' ≤ character && character ≤ '9' then some (character.toNat - 48)
  else if 'a' ≤ character && character ≤ 'f' then some (character.toNat - 87)
  else if 'A' ≤ character && character ≤ 'F' then some (character.toNat - 55)
  else none

private def codeUnit? (first second third fourth : Char) : Option Nat := do
  let first ← hexDigit? first
  let second ← hexDigit? second
  let third ← hexDigit? third
  let fourth ← hexDigit? fourth
  return ((first * 16 + second) * 16 + third) * 16 + fourth

private def simpleEscape? : Char → Option Char
  | '"' => some '"'
  | '\\' => some '\\'
  | '/' => some '/'
  | 'b' => some '\x08'
  | 'f' => some '\x0c'
  | 'n' => some '\n'
  | 'r' => some '\r'
  | 't' => some '\t'
  | _ => none

private def isLeading (unit : Nat) : Bool :=
  0xD800 ≤ unit && unit < 0xDC00

private def isTrailing (unit : Nat) : Bool :=
  0xDC00 ≤ unit && unit < 0xE000

/-- One character or code unit of a string literal. -/
private inductive Piece where
  | character (value : Char)
  | unit (value : Nat)

private def pieces (read : List Piece) :
    List Char → Option (List Piece × List Char)
  | [] => none
  | '"' :: rest => some (read.reverse, rest)
  | '\\' :: 'u' :: first :: second :: third :: fourth :: rest =>
      match codeUnit? first second third fourth with
      | some unit => pieces (.unit unit :: read) rest
      | none => none
  | '\\' :: escape :: rest =>
      match simpleEscape? escape with
      | some character => pieces (.character character :: read) rest
      | none => none
  | character :: rest =>
      if character.toNat < 0x20 || character == '\\' then none
      else pieces (.character character :: read) rest

/-- The text of the pieces; code units outside the basic plane come in pairs. -/
private def assemble (text : List Char) : List Piece → Option (List Char)
  | [] => some text.reverse
  | .character character :: rest => assemble (character :: text) rest
  | .unit leading :: .unit trailing :: rest =>
      if isLeading leading then
        if isTrailing trailing then
          let code := 0x10000 + (leading - 0xD800) * 0x400 + (trailing - 0xDC00)
          assemble (Char.ofNat code :: text) rest
        else
          none
      else if isTrailing leading then
        none
      else
        assemble (Char.ofNat leading :: text) (.unit trailing :: rest)
  | .unit unit :: rest =>
      if isLeading unit || isTrailing unit then none
      else assemble (Char.ofNat unit :: text) rest

private def stringBody? (characters : List Char) :
    Option (Option String × List Char) := do
  let (pieces, rest) ← pieces [] characters
  return ((assemble [] pieces).map String.ofList, rest)

private def digits (characters : List Char) : List Char × List Char :=
  (characters.takeWhile Char.isDigit, characters.dropWhile Char.isDigit)

private def fraction? : List Char → Option (List Char × List Char)
  | '.' :: rest =>
      match digits rest with
      | ([], _) => none
      | (read, rest) => some ('.' :: read, rest)
  | characters => some ([], characters)

private def exponentDigits? (mark : List Char) (characters : List Char) :
    Option (List Char × List Char) :=
  match digits characters with
  | ([], _) => none
  | (read, rest) => some (mark ++ read, rest)

private def exponent? : List Char → Option (List Char × List Char)
  | mark :: rest =>
      if mark == 'e' || mark == 'E' then
        match rest with
        | '+' :: rest => exponentDigits? [mark, '+'] rest
        | '-' :: rest => exponentDigits? [mark, '-'] rest
        | rest => exponentDigits? [mark] rest
      else
        some ([], mark :: rest)
  | [] => some ([], [])

private def natural (read : List Char) : Nat :=
  read.foldl (fun value digit => value * 10 + (digit.toNat - 48)) 0

private def number? (negative : Bool) (characters : List Char) :
    Option (Json × List Char) := do
  let (whole, rest) := digits characters
  match whole with
  | [] => none
  | '0' :: _ :: _ => none
  | _ =>
    let (fraction, rest) ← fraction? rest
    let (exponent, rest) ← exponent? rest
    let literal := String.ofList
      ((if negative then ['-'] else []) ++ whole ++ fraction ++ exponent)
    let value := natural whole
    if !fraction.isEmpty || !exponent.isEmpty then
      return (.real literal, rest)
    else if negative then
      if value == 0 || value > 0x8000000000000000 then return (.real literal, rest)
      else return (.integer (-(value : Int)), rest)
    else if value < UInt64.size then
      return (.integer value, rest)
    else
      return (.real literal, rest)

private def word? (word : String) (value : Json) (characters : List Char) :
    Option (Json × List Char) :=
  if word.toList.isPrefixOf characters then
    some (value, characters.drop word.length)
  else
    none

/-- An object can be read when all of its names can. -/
private def objectOf (fields : List (Option String × Json)) : Json :=
  match fields.mapM fun (name, field) => name.map (·, field) with
  | some fields => .object fields
  | none => .unreadable

/-! Every element takes at least one character, so that as many rounds as there are
characters are enough. -/

mutual
private def value? : Nat → List Char → Option (Json × List Char)
  | 0, _ => none
  | rounds + 1, characters =>
      match skipBlanks characters with
      | [] => none
      | '"' :: rest => do
          let (text, rest) ← stringBody? rest
          match text with
          | some text => return (.string text, rest)
          | none => return (.unreadable, rest)
      | '[' :: rest =>
          match skipBlanks rest with
          | ']' :: rest => some (.array [], rest)
          | rest => do
              let (items, rest) ← items? rounds [] rest
              return (.array items, rest)
      | '\x7b' :: rest =>
          match skipBlanks rest with
          | '\x7d' :: rest => some (.object [], rest)
          | rest => do
              let (fields, rest) ← fields? rounds [] rest
              return (objectOf fields, rest)
      | 'n' :: rest => word? "null" .null ('n' :: rest)
      | 't' :: rest => word? "true" (.bool true) ('t' :: rest)
      | 'f' :: rest => word? "false" (.bool false) ('f' :: rest)
      | '-' :: rest => number? true rest
      | rest => number? false rest

private def items? : Nat → List Json → List Char → Option (List Json × List Char)
  | 0, _, _ => none
  | rounds + 1, read, characters => do
      let (item, rest) ← value? rounds characters
      match skipBlanks rest with
      | ',' :: rest => items? rounds (item :: read) rest
      | ']' :: rest => return ((item :: read).reverse, rest)
      | _ => none

private def fields? : Nat → List (Option String × Json) → List Char →
    Option (List (Option String × Json) × List Char)
  | 0, _, _ => none
  | rounds + 1, read, characters =>
      match skipBlanks characters with
      | '"' :: rest => do
          let (name, rest) ← stringBody? rest
          match skipBlanks rest with
          | ':' :: rest =>
              let (field, rest) ← value? rounds rest
              match skipBlanks rest with
              | ',' :: rest => fields? rounds ((name, field) :: read) rest
              | '\x7d' :: rest => return (((name, field) :: read).reverse, rest)
              | _ => none
          | _ => none
      | _ => none
end

/-- Reads a text that holds one value and nothing else. -/
def ofText? (text : String) : Option Json :=
  let characters := text.toList
  match value? (characters.length + 1) characters with
  | some (value, rest) => if (skipBlanks rest).isEmpty then some value else none
  | none => none

/-! ## Writing -/

private def writtenCharacter (character : Char) : List Char :=
  match character with
  | '"' => ['\\', '"']
  | '\\' => ['\\', '\\']
  | '\x08' => ['\\', 'b']
  | '\x0c' => ['\\', 'f']
  | '\n' => ['\\', 'n']
  | '\r' => ['\\', 'r']
  | '\t' => ['\\', 't']
  | _ =>
      if character.toNat < 0x20 then
        let digits := Nat.toDigits 16 character.toNat
        ['\\', 'u'] ++ List.replicate (4 - digits.length) '0' ++ digits
      else
        [character]

def writtenString (text : String) : String :=
  String.ofList ('"' :: text.toList.flatMap writtenCharacter ++ ['"'])

mutual
/-- The value on one line. -/
def compact : Json → String
  | .null => "null"
  | .bool value => if value then "true" else "false"
  | .integer value => toString value
  | .real literal => literal
  | .string text => writtenString text
  | .unreadable => "null"
  | .array items => "[" ++ ",".intercalate (compactItems items) ++ "]"
  | .object fields => "\x7b" ++ ",".intercalate (compactFields fields) ++ "\x7d"

private def compactItems : List Json → List String
  | [] => []
  | item :: rest => item.compact :: compactItems rest

private def compactFields : List (String × Json) → List String
  | [] => []
  | (name, field) :: rest =>
      (writtenString name ++ ":" ++ field.compact) :: compactFields rest
end

private def block (opening closing margin : String) (lines : List String) : String :=
  if lines.isEmpty then
    opening ++ closing
  else
    let inner := "\n" ++ margin ++ "  "
    opening ++ inner ++ ("," ++ inner).intercalate lines ++ "\n" ++ margin ++ closing

mutual
/-- The value over several lines, each element on a line of its own. -/
def indented (margin : String) : Json → String
  | .array items => block "[" "]" margin (indentedItems (margin ++ "  ") items)
  | .object fields =>
      block "\x7b" "\x7d" margin (indentedFields (margin ++ "  ") fields)
  | value => value.compact

private def indentedItems (margin : String) : List Json → List String
  | [] => []
  | item :: rest => item.indented margin :: indentedItems margin rest

private def indentedFields (margin : String) : List (String × Json) → List String
  | [] => []
  | (name, field) :: rest =>
      (writtenString name ++ ": " ++ field.indented margin) ::
        indentedFields margin rest
end

/-! ## Building -/

def ofNat (value : Nat) : Json := .integer value

def ofList {α : Type} (encode : α → Json) (items : List α) : Json :=
  .array (items.map encode)

/-- The array of some items, if there are any. -/
def ofItems? {α : Type} (encode : α → Json) (items : List α) : Option Json :=
  if items.isEmpty then none else some (ofList encode items)

/-- A flag that is written only where it is set. -/
def ofFlag? (value : Bool) : Option Json :=
  if value then some (.bool true) else none

/-- The object of the fields that have a value. -/
def ofFields (fields : List (String × Option Json)) : Json :=
  .object (fields.filterMap fun (name, value) => value.map (name, ·))

/-! ## Access -/

def field? (value : Json) (name : String) : Option Json :=
  match value with
  | .object fields => (fields.find? (·.1 == name)).map (·.2)
  | _ => none

/-- A field that holds more than null. -/
def present? (value : Json) (name : String) : Option Json :=
  match value.field? name with
  | some .null => none
  | found => found

def string? : Json → Option String
  | .string text => some text
  | _ => none

def bool? : Json → Option Bool
  | .bool value => some value
  | _ => none

def integer? : Json → Option Int
  | .integer value => some value
  | _ => none

def natural? : Json → Option Nat
  | .integer value => if value < 0 then none else some value.toNat
  | _ => none

def array? : Json → Option (List Json)
  | .array items => some items
  | _ => none

def object? : Json → Option (List (String × Json))
  | .object fields => some fields
  | _ => none

/-! The contents of a field, where they may be missing. -/

def textAt? (value : Json) (name : String) : Option String :=
  (value.field? name).bind string?

def textAt (value : Json) (name : String) : String :=
  (value.textAt? name).getD ""

def flagAt (value : Json) (name : String) : Bool :=
  ((value.field? name).bind bool?).getD false

def itemsAt (value : Json) (name : String) : List Json :=
  ((value.field? name).bind array?).getD []

end Json

end Adl
