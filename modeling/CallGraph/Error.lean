import CallGraph.Callable
import CallGraph.Diagnostic
import CallGraph.Session.Phase

/-!
# Errors

The causes for which an operation on the graph or on a session is refused, their short names and
their wording. A `Failure` is an error on its way to the outside, with the context it arose in.
-/
namespace CallGraph

inductive Error where
  | sourceNotFound (path : Path)
  | analysisFailed (file : Path) (diagnostics : List Diagnostic)
  | unknownSymbol (id : CallableId)
  | unknownFile (path : Path)
  | invalidTransition (operation : String) (phase : Phase)
  | preconditionFailed (reason : String)
  | invalidDatabase (path : Path) (reason : String)
  | io (cause : String)
deriving DecidableEq, Repr, Inhabited

namespace Error

def kind : Error → String
  | .sourceNotFound _ => "SourceNotFound"
  | .analysisFailed _ _ => "AnalysisError"
  | .unknownSymbol _ => "UnknownSymbol"
  | .unknownFile _ => "UnknownFile"
  | .invalidTransition _ _ => "InvalidTransition"
  | .preconditionFailed _ => "PreconditionFailed"
  | .invalidDatabase _ _ => "InvalidCompilationDatabase"
  | .io _ => "Io"

def message : Error → String
  | .sourceNotFound path => s!"source file not found: {path.text}"
  | .analysisFailed file diagnostics =>
    s!"analysis of {file.text} failed:\n" ++
      String.intercalate "\n" (diagnostics.map Diagnostic.render)
  | .unknownSymbol id => s!"unknown symbol: {id.text}"
  | .unknownFile path => s!"file is not part of the compilation catalog: {path.text}"
  | .invalidTransition operation phase => s!"'{operation}' is not allowed in state {phase.label}"
  | .preconditionFailed reason => s!"precondition failed: {reason}"
  | .invalidDatabase path reason => s!"invalid compilation database {path.text}: {reason}"
  | .io cause => s!"I/O error: {cause}"

def diagnostics : Error → List Diagnostic
  | .analysisFailed _ diagnostics => diagnostics
  | _ => []

/-- The message followed by that of the underlying cause. -/
def chain (error : Error) : String :=
  match error with
  | .io cause => s!"{error.message}: {cause}"
  | _ => error.message

end Error

/-- An error as it reaches the user: one of the graph, or a request that makes no sense. -/
inductive Failure where
  /-- An error of the graph, with the contexts it passed through, outermost first. -/
  | graph (contexts : List String) (error : Error)
  /-- Anything else, as a finished text. -/
  | badRequest (text : String)
deriving DecidableEq, Repr, Inhabited

namespace Failure

def ofError (error : Error) : Failure := .graph [] error

def kind : Failure → String
  | .graph _ error => error.kind
  | .badRequest _ => "BadRequest"

/-- All contexts and causes in one line. -/
def chain : Failure → String
  | .graph contexts error => String.intercalate ": " (contexts ++ [error.chain])
  | .badRequest text => text

def message : Failure → String
  | .graph _ error => error.message
  | .badRequest text => text

def diagnostics : Failure → List Diagnostic
  | .graph _ error => error.diagnostics
  | .badRequest _ => []

end Failure

end CallGraph
