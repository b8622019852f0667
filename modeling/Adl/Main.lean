import Adl.CommandLine

/-! The command line: checks a bundle of definitions and reports what is wrong. -/

namespace Adl.CommandLine

def readBytes (path : String) : IO (Option (List UInt8)) := do
  try
    return some (← IO.FS.readBinFile path).data.toList
  catch _ =>
    return none

/-- A file that cannot be read is taken for one without text, which neither options nor
signatures can be. -/
def readText (path : Option String) : IO (Option String) := do
  match path with
  | none => return none
  | some path =>
      try
        return some (← IO.FS.readFile path)
      catch _ =>
        return some ""

def report (arguments : Arguments) : Except CheckFailure CheckReport → IO Unit
  | .error failure => IO.eprintln failure.message
  | .ok found => do
      if arguments.asJson then
        IO.println (found.json.indented "")
      else if !(found.errors.isEmpty && found.warnings.isEmpty) then
        IO.eprintln found.text

def run (bundle : String) (arguments : Arguments) : IO UInt32 := do
  let request : CheckRequest :=
    { bundle := ← readBytes bundle
      roots := arguments.roots
      options := ← readText arguments.options
      signatures := ← readText arguments.signatures }
  let result := request.run
  report arguments result
  return Check.exitStatus result

end Adl.CommandLine

def main (words : List String) : IO UInt32 := do
  match Adl.CommandLine.Arguments.ofWords? words with
  | some { bundle := some bundle, roots, options, signatures, asJson } =>
      Adl.CommandLine.run bundle ⟨some bundle, roots, options, signatures, asJson⟩
  | _ =>
      if words.contains "--help" || words.contains "-h" then
        IO.println Adl.CommandLine.usage
        return 0
      else
        IO.eprintln Adl.CommandLine.usage
        return 2
