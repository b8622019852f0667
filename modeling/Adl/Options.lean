import Adl.Diagnostic.Log
import Adl.Text.Json

namespace Adl

/-! The settings of a compilation, and how they are read. -/

structure Options where
  errorPolicy : ErrorPolicy
  /-- Whether a generated source that cannot be parsed is kept. -/
  dumpGeneratedSources : Bool
  /-- How many definitions may be loading at a time. -/
  maxResolutionDepth : Nat
  sourceExtension : String
deriving DecidableEq, Repr

namespace Options

def default : Options :=
  ⟨.collect, false, 256, "adl"⟩

instance : Inhabited Options := ⟨default⟩

/-! A setting is written by name in an object, each at most once and unknown ones
skipped, or by position in an array. Absent settings have their default. -/

private def policyOfName? : String → Option ErrorPolicy
  | "collect" => some .collect
  | "fail_fast" => some .failFast
  | _ => none

private def policy? : Json → Option ErrorPolicy
  | .string name => policyOfName? name
  | .object [(name, .null)] => policyOfName? name
  | _ => none

private def settingNames : List String :=
  ["error_policy", "dump_generated_sources", "max_resolution_depth", "source_extension"]

private def set? (options : Options) (name : String) (value : Json) : Option Options :=
  match name with
  | "error_policy" => do return { options with errorPolicy := ← policy? value }
  | "dump_generated_sources" => do
      return { options with dumpGeneratedSources := ← value.bool? }
  | "max_resolution_depth" => do
      return { options with maxResolutionDepth := ← value.natural? }
  | "source_extension" => do
      return { options with sourceExtension := ← value.string? }
  | _ => some options

private def setFields? (options : Options) (given : List String) :
    List (String × Json) → Option Options
  | [] => some options
  | (name, value) :: rest =>
      if settingNames.contains name && given.contains name then
        none
      else do
        setFields? (← options.set? name value) (name :: given) rest

private def setItems? (options : Options) : List String → List Json → Option Options
  | _, [] => some options
  | [], _ :: _ => none
  | name :: names, value :: rest => do
      setItems? (← options.set? name value) names rest

def ofJson? : Json → Option Options
  | .object fields => setFields? default [] fields
  | .array items => setItems? default settingNames items
  | _ => none

example : ofJson? (.array []) = some default := rfl

end Options

end Adl
