import Adl.Annotation.Checking
import Adl.Annotation.Predefined
import Adl.Annotation.Probe
import Adl.Annotation.Processing
import Adl.Annotation.Registry
import Adl.Binding.Checking
import Adl.Binding.Compatibility
import Adl.Binding.Coverage
import Adl.Binding.Endpoint
import Adl.Binding.Expansion
import Adl.Bundle.Annotation
import Adl.Bundle.Definition
import Adl.Bundle.Element
import Adl.Bundle.Packed
import Adl.Bundle.Record
import Adl.Bundle.Reference
import Adl.Bundle.Value
import Adl.Check
import Adl.CommandLine
import Adl.Compilation
import Adl.Definition.Annotation
import Adl.Definition.Basic
import Adl.Definition.Component
import Adl.Definition.Controller
import Adl.Definition.Inheritance
import Adl.Definition.Interface
import Adl.Definition.Merge
import Adl.Definition.NodePath
import Adl.Definition.Printer
import Adl.Definition.Reference
import Adl.Definition.Value
import Adl.Diagnostic.Basic
import Adl.Diagnostic.Log
import Adl.Diagnostic.Printer
import Adl.Exchange.Definition
import Adl.Exchange.Diagnostic
import Adl.Exchange.NodePath
import Adl.Exchange.Reference
import Adl.Foundation.Bytes
import Adl.Foundation.MemberSet
import Adl.Foundation.SourceMap
import Adl.Foundation.SourcePath
import Adl.Foundation.Span
import Adl.Foundation.Table
import Adl.FrontEnd
import Adl.Loading.Composition
import Adl.Loading.Context
import Adl.Loading.Declarations
import Adl.Loading.Failure
import Adl.Loading.Pipeline
import Adl.Loading.Sources
import Adl.Loading.Step
import Adl.Membrane.Completeness
import Adl.Membrane.Controllers
import Adl.Membrane.Delegation
import Adl.Options
import Adl.Proofs.Annotation.Processing
import Adl.Proofs.Definition.ReferenceText
import Adl.Proofs.Foundation.Table
import Adl.Proofs.Loading.CacheCoherence
import Adl.Proofs.Loading.CompletionOrder
import Adl.Proofs.Loading.Composition
import Adl.Proofs.Loading.Declarations
import Adl.Proofs.Loading.Discipline
import Adl.Proofs.Loading.Distinction
import Adl.Proofs.Loading.Evolution
import Adl.Proofs.Loading.Pipeline
import Adl.Proofs.Loading.Soundness
import Adl.Proofs.Loading.Stages
import Adl.Proofs.Loading.Steps
import Adl.Proofs.Reference.CacheTransparency
import Adl.Proofs.Reference.Mapping
import Adl.Proofs.Reference.Matching
import Adl.Proofs.Reference.Nesting
import Adl.Proofs.Reference.Resolution
import Adl.Proofs.Template.Copies
import Adl.Proofs.Text.Quoted
import Adl.Reference.Arguments
import Adl.Reference.Hoisted
import Adl.Reference.Qualification
import Adl.Reference.Resolution
import Adl.Reference.Substitution
import Adl.Reference.TypeArguments
import Adl.Signature
import Adl.SourceIndex
import Adl.Template.Instance
import Adl.Text.Dotted
import Adl.Text.Hexadecimal
import Adl.Text.Json
import Adl.Text.Quoted
import Adl.Text.Unprintable
import Adl.Main
import Adl.Proofs.Template.Closure
import Adl.Proofs.Reference.ParameterBinding
import Adl.Proofs.Loading.Kept
import Adl.Proofs.Loading.Scoping
import Adl.Proofs.Loading.Closing
import Adl.Proofs.Annotation.Ordinary
import Adl.Proofs.Definition.Interfaces
import Adl.Proofs.Binding.Endpoints
import Adl.Proofs.Binding.Wiring
import Adl.Proofs.Binding.Soundness
import Adl.Proofs.Binding.Coverage
import Adl.Proofs.Binding.Quiet
import Adl.Proofs.Binding.Report
import Adl.Proofs.Loading.Parallel
import Adl.Proofs.Reference.Parallel
import Adl.Proofs.Loading.FirstError
import Adl.Proofs.Loading.Stack
import Adl.Proofs.Loading.StackDiscipline
import Adl.Proofs.Loading.Termination
import Adl.Proofs.Signature
import Adl.Proofs.Binding.Conformance
import Adl.Proofs.Binding.Substitutability
import Adl.Proofs.Binding.Instantiation
import Adl.Proofs.Definition.Spelling
import Adl.Proofs.Text.Brackets
import Adl.Proofs.Template.Sharing
import Adl.Proofs.Bundle.Bytes
import Adl.Proofs.Bundle.Reading
import Adl.Proofs.Bundle.RoundTrip
import Adl.Proofs.Membrane.Completion
import Adl.Proofs.Loading.Inheritance
import Adl.Proofs.Loading.Trust
import Adl.Proofs.Annotation.Singletons
import Adl.Proofs.Loading.Instances
import Adl.Proofs.Loading.Typing
import Adl.Proofs.Definition.Declarations
import Adl.Proofs.Loading.Ancestry
import Adl.Proofs.Loading.Diamonds
import Adl.Proofs.Bundle.Reloading
import Adl.Proofs.Reference.Substitution
import Adl.Proofs.Loading.Retention
import Adl.Proofs.Loading.Retrying
import Adl.Proofs.Reference.ArgumentChecking
import Adl.Proofs.Template.OpenParameters
import Adl.Proofs.Annotation.Inheriting
import Adl.Proofs.Annotation.Showing
import Adl.Proofs.Loading.Decorated
import Adl.Proofs.Foundation.Additions
import Adl.Proofs.Definition.Merging
import Adl.Proofs.Loading.Collecting
import Adl.Proofs.Definition.TakingOver
import Adl.Proofs.Binding.Resting
import Adl.Proofs.Binding.Normalization
import Adl.Proofs.Membrane.Synthesis
import Adl.Proofs.Diagnostic.Underline
import Adl.Proofs.Definition.Imports
import Adl.Proofs.Reference.Qualification
import Adl.Proofs.SourceIndex
import Adl.Proofs.Reference.CopyNames
import Adl.Proofs.Annotation.Accounting
import Adl.Proofs.Annotation.Visiting
import Adl.Proofs.Definition.Upgrades
