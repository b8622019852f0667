import Adl.Definition.NodePath
import Adl.Foundation.SourceMap
import Adl.Foundation.Table
import Adl.Options

namespace Adl

/-! The state of a compilation: the definitions made so far, the names under which
they are known, and what was reported about them. -/

/-- One visit of a probe. -/
structure Visit where
  label : String
  node : NodePath
  definition : String
  phase : Phase
deriving DecidableEq, Repr

/-- What was observed of a compilation. -/
structure Trace where
  visits : List Visit
  /-- How often each name was loaded, in the order of the first loads. -/
  loads : Table Nat
deriving Inhabited

structure Context where
  options : Options
  log : DiagnosticLog
  sources : SourceMap
  arena : Array Definition
  /-- The loaded definitions, in the order in which they were completed. -/
  cache : Table DefinitionId
  /-- The names that are being loaded, outermost first. -/
  loading : List String
  registered : Table DefinitionId
  registeredSources : Table String
  /-- What references were resolved to, by scope and printed form. -/
  references : Table DefinitionId
  /-- The types that uses of a parameter gave it, by definition and parameter. -/
  inferredTypes : Table (Table ParameterType)
  trace : Trace

namespace Context

def ofOptions (options : Options) : Context :=
  { options
    log := .ofPolicy options.errorPolicy
    sources := .empty
    arena := #[]
    cache := .empty
    loading := []
    registered := .empty
    registeredSources := .empty
    references := .empty
    inferredTypes := .empty
    trace := ⟨[], .empty⟩ }

instance : Inhabited Context := ⟨ofOptions .default⟩

def definition (context : Context) (id : DefinitionId) : Definition :=
  context.arena[id]?.getD default

def replace (context : Context) (id : DefinitionId) (definition : Definition) : Context :=
  { context with arena := context.arena.setIfInBounds id definition }

def allocate (context : Context) (definition : Definition) : DefinitionId × Context :=
  (context.arena.size, { context with arena := context.arena.push definition })

def register (context : Context) (name : String) (definition : Definition) :
    DefinitionId × Context :=
  let (id, context) := context.allocate definition
  (id, { context with registered := context.registered.insert name id })

def registerSource (context : Context) (name text : String) : Context :=
  { context with registeredSources := context.registeredSources.insert name text }

/-- Whether a name can be loaded without looking for a file. -/
def isKnown (context : Context) (name : String) : Bool :=
  context.cache.contains name || context.registered.contains name ||
    context.registeredSources.contains name

/-- The definition that a decoration designates: the one at its position, if that
has the recorded name, else the one loaded under that name. -/
def resolved? (context : Context) (resolved : Resolved) : Option DefinitionId :=
  let atPosition := resolved.id.filter fun id =>
    context.arena[id]?.any (·.name == resolved.name)
  atPosition.or (context.cache.find? resolved.name)

def inferredType? (context : Context) (definition parameter : String) :
    Option ParameterType := do
  (← context.inferredTypes.find? definition).find? parameter

/-- Records the type of a parameter, unless it has one already. -/
def infer (context : Context) (definition parameter : String) (type : ParameterType) :
    Context :=
  match context.inferredType? definition parameter with
  | some _ => context
  | none =>
      let known := (context.inferredTypes.find? definition).getD .empty
      { context with
        inferredTypes :=
          context.inferredTypes.insert definition (known.insert parameter type) }

def visited (context : Context) (visit : Visit) : Context :=
  { context with
    trace := { context.trace with visits := context.trace.visits ++ [visit] } }

def countLoad (context : Context) (name : String) : Context :=
  let loads := context.trace.loads
  { context with
    trace := { context.trace with
      loads := loads.insert name ((loads.find? name).getD 0 + 1) } }

end Context

/-! ## Steps over a compilation -/

abbrev Loading (α : Type) := Step Context α

/-- A step that works on a value beside the compilation. -/
abbrev Revising (Draft : Type) (α : Type) := Drafting Context Draft α

namespace Loading

def context : Loading Context :=
  fun context => (.ok context, context)

def update (change : Context → Context) : Loading Unit :=
  fun context => (.ok (), change context)

def definition (id : DefinitionId) : Loading Definition :=
  fun context => (.ok (context.definition id), context)

def replace (id : DefinitionId) (definition : Definition) : Loading Unit :=
  update fun context => context.replace id definition

def register (name : String) (definition : Definition) : Loading DefinitionId :=
  fun context =>
    let (id, context) := context.register name definition
    (.ok id, context)

def allocate (definition : Definition) : Loading DefinitionId :=
  fun context =>
    let (id, context) := context.allocate definition
    (.ok id, context)

def record (diagnostic : Diagnostic) : Loading Unit :=
  Step.onPart (·.log) (fun log context => { context with log })
    (DiagnosticLog.record diagnostic)

def recordError (kind : DiagnosticKind) (span : Span) (message : String) : Loading Unit :=
  record (.error kind span message)

/-- Records a fatal diagnostic and goes on; other failures stand. -/
def absorb (error : LoadError) : Loading Unit :=
  Step.onPart (·.log) (fun log context => { context with log })
    (DiagnosticLog.absorb error)

def recordAll (diagnostics : List Diagnostic) : Loading Unit :=
  diagnostics.forM record

def warn (kind : DiagnosticKind) (span : Span) (message : String) : Loading Unit :=
  update fun context =>
    { context with log := context.log.warned (.warning kind span message) }

/-- Records a type for a parameter and gives the type that it had before. -/
def infer (definition parameter : String) (type : ParameterType) :
    Loading (Option ParameterType) :=
  fun context =>
    (.ok (context.inferredType? definition parameter),
      context.infer definition parameter type)

/-- Records a fatal diagnostic at the place of use and gives nothing. -/
def orRecorded (step : Loading α) (span : Span) : Loading (Option α) := do
  match ← step.outcome with
  | .ok value => return some value
  | .error (.fatal diagnostic) =>
      record (diagnostic.placedAt span)
      return none
  | .error error => Step.fail error

/-- Works on a copy of a stored definition and stores the copy, whatever the outcome. -/
def revise (id : DefinitionId) (revision : Revising Definition Unit) : Loading Unit :=
  fun context =>
    let (result, (context, definition)) := revision (context, context.definition id)
    (result, context.replace id definition)

end Loading

end Adl
