import Adl.Check

/-! The words of the command line that checks a bundle. -/

namespace Adl.CommandLine

structure Arguments where
  bundle : Option String
  roots : List String
  options : Option String
  signatures : Option String
  asJson : Bool

def Arguments.empty : Arguments :=
  ⟨none, [], none, none, false⟩

def usage : String :=
  "usage: adl-check <bundle> [--root NAME]... [--options FILE] [--signatures FILE] [--json]"

/-- A lone dash is a plain word. -/
def isOption (word : String) : Bool :=
  word.startsWith "-" && word != "-"

/-- Sets an option that takes a value. Only roots can be given more than once. -/
def Arguments.set? (arguments : Arguments) (name value : String) : Option Arguments :=
  match name with
  | "--root" => some { arguments with roots := arguments.roots ++ [value] }
  | "--options" =>
      if arguments.options.isSome then none
      else some { arguments with options := some value }
  | "--signatures" =>
      if arguments.signatures.isSome then none
      else some { arguments with signatures := some value }
  | _ => none

def Arguments.setBundle? (arguments : Arguments) (path : String) : Option Arguments :=
  if arguments.bundle.isSome then none else some { arguments with bundle := some path }

/-- An option and its value in one word, with an equals sign between them. -/
def joined? (word : String) : Option (String × String) :=
  match word.splitOn "=" with
  | name :: first :: rest =>
      if name.startsWith "--" then some (name, "=".intercalate (first :: rest)) else none
  | _ => none

/-- Adds the words of a command line. After two dashes every word is plain; before them
no option is the value of another. -/
def Arguments.add? (arguments : Arguments) : List String → Option Arguments
  | [] => some arguments
  | "--" :: rest => rest.foldlM Arguments.setBundle? arguments
  | "--json" :: rest =>
      if arguments.asJson then none else { arguments with asJson := true }.add? rest
  | word :: rest =>
      match joined? word, isOption word with
      | some (name, value), _ => do (← arguments.set? name value).add? rest
      | none, false => do (← arguments.setBundle? word).add? rest
      | none, true =>
          match rest with
          | [] => none
          | value :: rest =>
              if isOption value then none
              else do (← arguments.set? word value).add? rest

/-- The arguments of a command line that is well formed. -/
def Arguments.ofWords? (words : List String) : Option Arguments := do
  let arguments ← Arguments.empty.add? words
  if arguments.bundle.isSome then some arguments else none

end Adl.CommandLine
