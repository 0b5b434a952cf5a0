import CallGraph.Analyzer
import CallGraph.Callable
import CallGraph.Catalog.Basic
import CallGraph.Catalog.Database
import CallGraph.CommandLine.Arguments
import CallGraph.CommandLine.Help
import CallGraph.CommandLine.Invocation
import CallGraph.CompilerArguments
import CallGraph.Config
import CallGraph.Cpp.Analysis
import CallGraph.Cpp.Call
import CallGraph.Cpp.Declaration
import CallGraph.Cpp.Declarator
import CallGraph.Cpp.Name
import CallGraph.Cpp.SourceUnit
import CallGraph.Cpp.Spelling
import CallGraph.Cpp.SymbolTable
import CallGraph.Cpp.TypeName
import CallGraph.Decimal.Shortest
import CallGraph.DefinitionSearch
import CallGraph.Diagnostic
import CallGraph.Diagram
import CallGraph.DisplayRoot
import CallGraph.Error
import CallGraph.FileSystem
import CallGraph.Fresh
import CallGraph.Index.Basic
import CallGraph.Index.Pending
import CallGraph.Json.Decode
import CallGraph.Json.Number
import CallGraph.Json.Reader
import CallGraph.Json.Token
import CallGraph.Json.Value
import CallGraph.Listing
import CallGraph.Main
import CallGraph.Path
import CallGraph.Program
import CallGraph.Protocol.Connection
import CallGraph.Protocol.Request
import CallGraph.Protocol.Server
import CallGraph.Protocol.View
import CallGraph.Session.Basic
import CallGraph.Session.Phase
import CallGraph.Session.Reachable
import CallGraph.Snapshot
import CallGraph.Syntax.Tree
import CallGraph.Text.Blank
import CallGraph.Text.Printing
import CallGraph.Text.Quoted
import CallGraph.Text.Search
import CallGraph.Text.ShellWords
import CallGraph.Text.Utf8
import CallGraph.Toml.Document
import CallGraph.Toml.Scalar
import CallGraph.Toml.Text
import CallGraph.Toml.Value
import CallGraph.Proofs.Index.WellFormed
import CallGraph.Proofs.Index.Merge
import CallGraph.Proofs.Index.Run
import CallGraph.Proofs.Index.Row
import CallGraph.Proofs.Index.Reference
import CallGraph.Proofs.Index.Definition
import CallGraph.Proofs.Index.Order
import CallGraph.Proofs.Index.Restriction
import CallGraph.Proofs.Diagram.Coverage
import CallGraph.Proofs.Diagram.Nesting
import CallGraph.Proofs.Diagram.Growth
import CallGraph.Proofs.FileSystem.Canonical
import CallGraph.Proofs.Index.Report
import CallGraph.Proofs.Search.Growth
import CallGraph.Proofs.Catalog.Entries
import CallGraph.Proofs.Search.Exact
import CallGraph.Proofs.Session.Run
import CallGraph.Proofs.Session.Invariant
import CallGraph.Proofs.Session.Atomic
import CallGraph.Proofs.Session.Log
import CallGraph.Proofs.Session.Drawing
import CallGraph.Proofs.Listing.Tree
import CallGraph.Proofs.Search.Settled
import CallGraph.Proofs.Session.Reachable
import CallGraph.Proofs.Cpp.Analysis
import CallGraph.Proofs.Syntax.Inside
import CallGraph.Proofs.Cpp.Sites
import CallGraph.Proofs.Cpp.Bodies
import CallGraph.Proofs.Cpp.Scans
import CallGraph.Proofs.Cpp.Soundness
import CallGraph.Proofs.Cpp.Surroundings
import CallGraph.Proofs.Cpp.ScopeIdentity
import CallGraph.Proofs.Cpp.Tokens
import CallGraph.Proofs.Cpp.DeclaratorNames
import CallGraph.Proofs.Cpp.ParameterNames
import CallGraph.Proofs.Protocol.Answers
import CallGraph.Proofs.Catalog.SystemDirectories
import CallGraph.Proofs.Json.OneLine
import CallGraph.Proofs.Protocol.Framing
import CallGraph.Proofs.Listing.Consistency
import CallGraph.Proofs.Index.Again
import CallGraph.Proofs.Search.Ranking
import CallGraph.Proofs.Search.Twice
import CallGraph.Proofs.Search.Knowable
import CallGraph.Proofs.Traversal.Ending
import CallGraph.Proofs.Listing.Outcome
import CallGraph.Proofs.Traversal.DepthFirst
import CallGraph.Proofs.Cpp.Spellings
import CallGraph.Proofs.Cpp.Bases
import CallGraph.Proofs.Cpp.GlobalScope
import CallGraph.Proofs.Cpp.WellFormed
import CallGraph.Proofs.Cpp.FirstReached
import CallGraph.Proofs.Syntax.Faults
import CallGraph.Proofs.Cpp.SyntaxErrors
import CallGraph.Proofs.Path.Components
import CallGraph.Proofs.DisplayRoot.CommonDirectory
import CallGraph.Proofs.DisplayRoot.Labels
import CallGraph.Proofs.Catalog.Database
import CallGraph.Proofs.Catalog.Normalization
