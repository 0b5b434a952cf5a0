import CallGraph.Cpp.Call

/-!
# Analysis of C++ units

The analyzer for C++: it loads a unit, reads its declarations, resolves its calls, and reports all
callables before all calls. A unit with a syntax error outside system headers has no facts.
-/
namespace CallGraph.Cpp

/-- The fact that a call from one callable to another is. -/
def SymbolTable.callFact? (table : SymbolTable) (call : Nat × Nat) : Option Fact := do
  let caller ← table.symbols[call.1]?
  let callee ← table.symbols[call.2]?
  pure (.call caller.id callee.id)

/-- The facts of a unit: its callables in the order they are declared, then its calls. -/
def SymbolTable.facts (table : SymbolTable) : List Fact :=
  table.symbols.map (fun symbol => .callable symbol.fact) ++
    table.calls.filterMap table.callFact?

def analyze (files : FileSystem) (grammar : Grammar) : Analyzer := fun main arguments =>
  if !files.isFile main then .error (.sourceNotFound main)
  else
    match loadUnit files grammar (.ofArguments files arguments) main with
    | .error error => .error error
    | .ok unit =>
      let (errors, warnings) := unit.diagnostics.partition (·.severity.isFatal)
      if errors ≠ [] then .error (.analysisFailed main errors)
      else
        let translationUnit := (unit.files.getLast?.map SourceFile.path).getD main
        let table := SymbolTable.ofFiles unit.files translationUnit
        .ok ⟨translationUnit, table.facts, warnings⟩

def workspace (files : FileSystem) (grammar : Grammar) : Workspace := ⟨files, analyze files grammar⟩

end CallGraph.Cpp
