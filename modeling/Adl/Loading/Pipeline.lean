import Adl.Annotation.Checking
import Adl.Binding.Checking
import Adl.Binding.Coverage
import Adl.Binding.Expansion
import Adl.Loading.Composition
import Adl.Loading.Sources
import Adl.Membrane.Completeness
import Adl.Membrane.Delegation

namespace Adl

/-! Loading a definition: it is found, goes through the stages, and is remembered. A
stage may load further definitions; how many can be loading at a time is bounded. -/

inductive Stage where
  | annotations
  | process (phase : Phase)
  | typeParameters
  | subComponents
  | parents
  | subComponentAnnotations
  | interfaces
  | delegation
  | membrane
  | expandBindings
  | checkBindings
  | coverage
  | parameters
  | attributes
deriving DecidableEq, Repr

namespace Stage

/-- What a stage does to the definition that was loaded as `name`. -/
def run (frontEnd : FrontEnd) (load : String → Loading DefinitionId) (name : String)
    (id : DefinitionId) : Stage → Loading Unit
  | .annotations => frontEnd.registry.checkDefinition id
  | .process phase => frontEnd.registry.processStored phase id
  | .typeParameters => TypeParameters.check (Resolver.full frontEnd load) id
  | .subComponents => SubComponents.resolveAll (Resolver.full frontEnd load) id
  | .parents => Parents.merge (Resolver.full frontEnd load) load id
  | .subComponentAnnotations => frontEnd.registry.processStoredSubComponents id
  | .interfaces => checkInterfaces id
  | .delegation => delegateInterfaces id
  | .membrane => completeMembrane id
  | .expandBindings => do
      if !(← Loading.definition id).bindings.isEmpty then
        Loading.revise id normalizeBindings
  | .checkBindings => do
      if !(← Loading.definition id).bindings.isEmpty then
        Loading.revise id (Adl.checkBindings frontEnd.signatureExtends)
  | .coverage => requireBound name id
  | .parameters => checkParameters id
  | .attributes => settleAttributes id

/-- The stages in the order in which a definition goes through them. -/
def all : List Stage :=
  [ .annotations, .process .afterParsing, .typeParameters, .subComponents, .parents,
    .process .afterExtends, .subComponentAnnotations, .interfaces, .delegation,
    .membrane, .expandBindings, .checkBindings, .coverage, .parameters, .attributes,
    .process .afterChecking ]

end Stage

/-! ## The cache -/

namespace LoadCache

/-- The error of a load inside a load of the same name, with the path between them. -/
def cycle (loading : List String) (name : String) : LoadError :=
  .ofDiagnostic .cyclicDependency .generated
    ("cyclic dependency: " ++
      " -> ".intercalate (loading.dropWhile (· != name) ++ [name]))

def tooDeep (name : String) (bound : Nat) : LoadError :=
  .ofDiagnostic .cyclicDependency .generated
    ("loading '" ++ name ++ "' exceeds the maximum resolution depth of " ++ toString bound)

/-- Answers from the cache, or lets `inner` answer and remembers a success. While
`inner` runs the name counts as loading. -/
def around (name : String) (inner : Loading DefinitionId) : Loading DefinitionId := do
  let context ← Loading.context
  match context.cache.find? name with
  | some id => return id
  | none =>
      if context.loading.contains name then
        Step.fail (cycle context.loading name)
      else if context.options.maxResolutionDepth ≤ context.loading.length then
        Step.fail (tooDeep name context.options.maxResolutionDepth)
      else
        Loading.update fun context => { context with loading := context.loading ++ [name] }
        let id ← Step.ending inner fun context =>
          { context with loading := context.loading.erase name }
        Loading.update fun context => { context with cache := context.cache.insert name id }
        return id

end LoadCache

/-! ## Chains -/

/-- A link of a loading chain: a stage, or a cache around the links inside it. -/
inductive ChainLink where
  | stage (stage : Stage)
  | cache
deriving DecidableEq, Repr

namespace FrontEnd

/-- Finds a definition and takes it through the stages. -/
def runStages (frontEnd : FrontEnd) (load : String → Loading DefinitionId)
    (stages : List Stage) (name : String) : Loading DefinitionId := do
  if frontEnd.countsLoads then
    Loading.update (·.countLoad name)
  let id ← Sources.find frontEnd name
  stages.forM (Stage.run frontEnd load name id)
  return id

/-- Loading with room for `levels` more definitions at a time. Without room nothing
that is not in the cache can be loaded. -/
def loadWithin (frontEnd : FrontEnd) : Nat → String → Loading DefinitionId
  | 0, name => LoadCache.around name do
      let context ← Loading.context
      Step.fail (LoadCache.tooDeep name context.options.maxResolutionDepth)
  | levels + 1, name =>
      LoadCache.around name
        (frontEnd.runStages (frontEnd.loadWithin levels) Stage.all name)

/-- The room that is left in a compilation. -/
def levelsLeft (context : Context) : Nat :=
  context.options.maxResolutionDepth - context.loading.length

def load (frontEnd : FrontEnd) (name : String) : Loading DefinitionId := do
  frontEnd.loadWithin (levelsLeft (← Loading.context)) name

def resolve (frontEnd : FrontEnd) : Resolver :=
  Resolver.full frontEnd frontEnd.load

def instantiate (frontEnd : FrontEnd) (request : InstanceRequest) : Loading DefinitionId :=
  request.load frontEnd.registry frontEnd.load

/-! Parts of the pipeline on their own: definitions and references that occur inside
go through the whole. -/

/-- Loading by a chain of links, the outermost first. -/
def loadByChain (frontEnd : FrontEnd) (name : String) : List ChainLink →
    Loading DefinitionId
  | [] => Sources.find frontEnd name
  | .stage stage :: inner => do
      let id ← frontEnd.loadByChain name inner
      stage.run frontEnd frontEnd.load name id
      return id
  | .cache :: inner => LoadCache.around name (frontEnd.loadByChain name inner)

def resolveByLayers (frontEnd : FrontEnd) (layers : List ResolutionLayer) : Resolver :=
  Resolver.ofLayers frontEnd frontEnd.load frontEnd.resolve layers

end FrontEnd

end Adl
