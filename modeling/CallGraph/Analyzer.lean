import CallGraph.Error
import CallGraph.CompilerArguments

/-!
# Analyzers

An analyzer reports what a translation unit contains: all facts, or an error and no facts. The
graph is built over any analyzer, and with any notion of which headers belong to the system.
-/
namespace CallGraph

/-- Everything an analyzer learned from one translation unit. -/
structure UnitFacts where
  translationUnit : Path
  facts : List Fact
  /-- Diagnostics that did not make the analysis fail. -/
  warnings : List Diagnostic
deriving Repr, Inhabited

abbrev Analyzer := Path → List String → Except Error UnitFacts

/-- What a graph is built from: files, and an analyzer for them. -/
structure Workspace where
  files : FileSystem
  analyze : Analyzer

/-- A workspace with a notion of system headers. -/
structure Toolchain extends Workspace where
  /-- The directories whose headers count as system headers under some compiler arguments. -/
  systemDirectories : List String → List Path

/-- By default the headers of a system are those that the arguments call so. -/
def Workspace.toolchain (workspace : Workspace) : Toolchain where
  toWorkspace := workspace
  systemDirectories := CallGraph.systemDirectories workspace.files

instance : Coe Workspace Toolchain := ⟨Workspace.toolchain⟩

/-- The directories whose callables are left out of a graph. -/
def Toolchain.excludedDirectories (tools : Toolchain) (arguments : List String)
    (keepSystem : Bool) : List Path :=
  if keepSystem then [] else tools.systemDirectories arguments

end CallGraph
