import CallGraph.Path

/-!
# Diagnostics

Messages of an analysis about a place in a source file, graded by severity.
-/
namespace CallGraph

/-- How bad a diagnostic is, mildest first. -/
inductive Severity where
  | ignored
  | note
  | warning
  | error
  | fatal
deriving DecidableEq, Repr, Inhabited

namespace Severity

def label : Severity → String
  | .ignored => "Ignored"
  | .note => "Note"
  | .warning => "Warning"
  | .error => "Error"
  | .fatal => "Fatal"

def ofLabel? (text : String) : Option Severity :=
  [Severity.ignored, .note, .warning, .error, .fatal].find? (·.label = text)

/-- Errors and worse make an analysis fail. -/
def isFatal : Severity → Bool
  | .ignored | .note | .warning => false
  | .error | .fatal => true

end Severity

/-- A message about a place in a file; line and column count from one. -/
structure Diagnostic where
  severity : Severity
  message : String
  file : Path
  line : Nat
  column : Nat
deriving DecidableEq, Repr, Inhabited

/-- The diagnostic as one sentence. -/
def Diagnostic.render (diagnostic : Diagnostic) : String :=
  s!"{diagnostic.severity.label}: {diagnostic.message} in file {diagnostic.file.text}, " ++
    s!"line {diagnostic.line}, column {diagnostic.column}"

end CallGraph
