import Adl.Loading.Pipeline

namespace Adl

/-! Compilations: a list of names is loaded in one context, and either all of it
succeeds or what was reported is the result. -/

/-- What a successful compilation leaves. -/
structure Compiled where
  context : Context
  /-- The requested definitions, in the order of the request. -/
  roots : List DefinitionId
  warnings : List Diagnostic

namespace Compiled

def definition? (compiled : Compiled) (name : String) : Option Definition :=
  (compiled.context.cache.find? name).map compiled.context.definition

/-- Every loaded definition, in the order in which the loads were completed. -/
def definitions (compiled : Compiled) : List Definition :=
  compiled.context.cache.values.map compiled.context.definition

end Compiled

structure CompilationResult where
  outcome : Except (List Diagnostic) Compiled
  /-- The files that the diagnostics point into. -/
  sources : SourceMap
  trace : Trace

namespace Context

/-- A context in which texts are registered under names. -/
def ofSources (options : Options) (sources : List (String × String)) : Context :=
  sources.foldl (fun context (name, text) => context.registerSource name text)
    (.ofOptions options)

/-- A context in which definitions are registered under their own names. -/
def ofDefinitions (options : Options) (definitions : List Definition) : Context :=
  definitions.foldl
    (fun context definition => (context.register definition.name definition).2)
    (.ofOptions options)

end Context

namespace FrontEnd

/-- Loads a requested definition. What makes it unusable is recorded, and does not
keep the others from being loaded. -/
def loadRoot (frontEnd : FrontEnd) (name : String) : Loading (Option DefinitionId) := do
  match ← (frontEnd.load name).outcome with
  | .ok id => return some id
  | .error error =>
      Loading.absorb error
      return none

/-- Loads the requested definitions; those found before a stop are kept. -/
def loadRoots (frontEnd : FrontEnd) : List String → Revising (List DefinitionId) Unit
  | [] => return
  | name :: rest => do
      let found ← frontEnd.loadRoot name
      Drafting.modifyDraft (· ++ found.toList)
      frontEnd.loadRoots rest

/-- The diagnostic for a stop, where nothing recorded tells of it. -/
def stopDiagnostic? : Except LoadError Unit → Option Diagnostic
  | .error (.internal error) => some (.error .internalError .generated error.message)
  | _ => none

def compile (frontEnd : FrontEnd) (context : Context) (names : List String) :
    CompilationResult :=
  let (ended, context, roots) := frontEnd.loadRoots names (context, [])
  match context.log.errors ++ (stopDiagnostic? ended).toList with
  | [] =>
      { outcome := .ok {
          context := { context with log := context.log.cleared }
          roots
          warnings := context.log.warnings }
        sources := context.sources
        trace := context.trace }
  | errors =>
      { outcome := .error errors, sources := context.sources, trace := context.trace }

end FrontEnd

end Adl
