import Adl.Annotation.Registry
import Adl.Foundation.SourcePath

namespace Adl

/-! What a compilation is given: where texts come from and how they are parsed, which
signatures extend which, and the known annotations. -/

structure LocatedSource where
  path : SourcePath
  text : String

/-- Finds the text of a definition. A definition can exist although its text cannot
be read. -/
structure SourceLocator where
  locate : String → Option LocatedSource
  has : String → Bool

namespace SourceLocator

/-- The locator under which a definition exists when its text is found. -/
def ofTexts (locate : String → Option LocatedSource) : SourceLocator :=
  ⟨locate, fun name => (locate name).isSome⟩

end SourceLocator

/-- Makes a definition of the given name from the text of a file. -/
abbrev SourceParser := String → String → UInt16 → Except Diagnostic Definition

structure FrontEnd where
  registry : AnnotationRegistry
  parser : Option SourceParser
  locator : Option SourceLocator
  /-- Whether the first signature extends the second. -/
  signatureExtends : String → String → Bool
  /-- Whether the loads of each name are counted. -/
  countsLoads : Bool

namespace FrontEnd

def locate? (frontEnd : FrontEnd) (name : String) : Option LocatedSource :=
  frontEnd.locator.bind fun locator => locator.locate name

def definitionExists (frontEnd : FrontEnd) (context : Context) (name : String) : Bool :=
  context.isKnown name || frontEnd.locator.any fun locator => locator.has name

end FrontEnd

end Adl
