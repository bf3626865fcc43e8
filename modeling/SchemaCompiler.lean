import SchemaCompiler.Execution.CustomScalar
import SchemaCompiler.Execution.Factory
import SchemaCompiler.Host.Document
import SchemaCompiler.Json.Printer
import SchemaCompiler.Main
import SchemaCompiler.Proofs.Plan
import SchemaCompiler.Proofs.Agreement
import SchemaCompiler.Proofs.Instantiation
import SchemaCompiler.Proofs.Asking
import SchemaCompiler.Proofs.Invariant
import SchemaCompiler.Proofs.Advance
import SchemaCompiler.Proofs.Declared
import SchemaCompiler.Proofs.Complete
import SchemaCompiler.Proofs.Filling
import SchemaCompiler.Proofs.Analyzed
import SchemaCompiler.Proofs.FactorySimulation
import SchemaCompiler.Proofs.References
import SchemaCompiler.Proofs.Consistent
import SchemaCompiler.Proofs.Nesting
import SchemaCompiler.Proofs.Ending
import SchemaCompiler.Proofs.Succeeding
import SchemaCompiler.Proofs.Alike
import SchemaCompiler.Proofs.OrderIndependence
import SchemaCompiler.Proofs.Emitted
import SchemaCompiler.Proofs.Variables
import SchemaCompiler.Proofs.DefinitionOrder
import SchemaCompiler.Proofs.ClosedGraph
import SchemaCompiler.Proofs.InstanceNames
import SchemaCompiler.Proofs.Normalized
import SchemaCompiler.Proofs.WellFormed
import SchemaCompiler.Proofs.Nullability
import SchemaCompiler.Proofs.Mentions
import SchemaCompiler.Proofs.Shedding
import SchemaCompiler.Proofs.Dropping
import SchemaCompiler.Proofs.Words
import SchemaCompiler.Proofs.Lines
import SchemaCompiler.Proofs.Written
import SchemaCompiler.Proofs.Capture
import SchemaCompiler.Proofs.Proper
import SchemaCompiler.Proofs.Assigned
import SchemaCompiler.Proofs.Spelling
import SchemaCompiler.Proofs.Imports
import SchemaCompiler.Proofs.ResolverText
import SchemaCompiler.Proofs.Identifiers
import SchemaCompiler.Proofs.Calling
import SchemaCompiler.Proofs.Dictionary
import SchemaCompiler.Proofs.Registrations
import SchemaCompiler.Proofs.GraphCalls
import SchemaCompiler.Proofs.Additions
import SchemaCompiler.Proofs.Failing
import SchemaCompiler.Proofs.Afterwards
import SchemaCompiler.Proofs.Definitions
import SchemaCompiler.Proofs.Together
import SchemaCompiler.Proofs.Located
import SchemaCompiler.Proofs.OutputFiles
import SchemaCompiler.Proofs.SchemaNames
import SchemaCompiler.Proofs.Laziness
import SchemaCompiler.Proofs.ReadingTypes
import SchemaCompiler.Proofs.Indentation
import SchemaCompiler.Proofs.Docstring
import SchemaCompiler.Proofs.RegularGenerics
import SchemaCompiler.Proofs.FirstUnknown
import SchemaCompiler.Proofs.BindingTable
import SchemaCompiler.Proofs.Preorder
import SchemaCompiler.Proofs.Cycles
import SchemaCompiler.Proofs.Describing
import SchemaCompiler.Proofs.Lookups
import SchemaCompiler.Proofs.Revalidation
import SchemaCompiler.Proofs.Participation
