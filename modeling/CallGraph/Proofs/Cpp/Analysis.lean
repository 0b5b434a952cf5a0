import CallGraph.Cpp.Analysis
import CallGraph.Proofs.Cpp.Declared
import CallGraph.Proofs.Cpp.PostOrder
import CallGraph.Proofs.Cpp.Resolution
import CallGraph.Proofs.Index.CallsKnown

/-!
# What an analysis promises the graph

Main result: `analyze_loses_no_call`. A unit that is analyzed reports its callables before its
calls, and of a call both ends, the caller as defined. A graph that starts with such a unit has all
its calls.

A graph drops a call if its caller is not defined or its callee not known. Neither happens: a body
belongs to a definition (`Coherent.defined`), and what it calls is in the table of the unit
(`Body.callees_known`). So the facts satisfy what `Index.ingest_of_callsKnown` asks for.
-/
namespace CallGraph.Cpp

/-! ### The facts of a table -/

namespace SymbolTable

/-- The identity of the callable at a position. -/
def idAt? (table : SymbolTable) (position : Nat) : Option CallableId :=
  table.symbols[position]?.map Symbol.id

/-- What the calls from the bodies of all callables with an identity lead to, in the order of the
calls; nothing where a call leads out of the table. -/
def calledBy (table : SymbolTable) (id : CallableId) : List (Option CallableId) :=
  (table.calls.filter fun call => table.idAt? call.1 = some id).map fun call => table.idAt? call.2

theorem callFact?_eq (table : SymbolTable) (call : Nat × Nat) :
    table.callFact? call = (table.idAt? call.1).bind fun caller =>
      (table.idAt? call.2).map fun callee => .call caller callee := by
  unfold callFact? idAt?
  cases table.symbols[call.1]? <;> cases table.symbols[call.2]? <;> rfl

theorem callFact?_eq_some_iff {table : SymbolTable} {call : Nat × Nat} {fact : Fact} :
    table.callFact? call = some fact ↔ ∃ caller callee, table.idAt? call.1 = some caller ∧
      table.idAt? call.2 = some callee ∧ Fact.call caller callee = fact := by
  simp [callFact?_eq, Option.bind_eq_some_iff]

theorem callable_mem_facts_iff {table : SymbolTable} {symbol : SymbolFact} :
    Fact.callable symbol ∈ table.facts ↔ ∃ entry ∈ table.symbols, entry.fact = symbol := by
  rw [facts, List.mem_append, List.mem_map]
  simp only [Fact.callable.injEq, or_iff_left_iff_imp, List.mem_filterMap]
  rintro ⟨call, _, reported⟩
  obtain ⟨_, _, _, _, other⟩ := callFact?_eq_some_iff.mp reported
  cases other

theorem call_mem_facts {table : SymbolTable} {caller callee : CallableId}
    (reported : Fact.call caller callee ∈ table.facts) :
    ∃ call ∈ table.calls, table.idAt? call.1 = some caller ∧ table.idAt? call.2 = some callee := by
  rcases List.mem_append.mp reported with observed | counted
  · obtain ⟨_, _, other⟩ := List.mem_map.mp observed
    cases other
  · obtain ⟨call, member, fact⟩ := List.mem_filterMap.mp counted
    obtain ⟨_, _, isCaller, isCallee, same⟩ := callFact?_eq_some_iff.mp fact
    cases same
    exact ⟨call, member, isCaller, isCallee⟩

theorem callablesFirst_facts (table : SymbolTable) : CallablesFirst table.facts := by
  refine ⟨table.symbols.map Symbol.fact, table.calls.filterMap fun call =>
    (table.idAt? call.1).bind fun caller =>
      (table.idAt? call.2).map fun callee => (caller, callee), ?_⟩
  rw [facts, List.map_map, List.map_filterMap]
  congr 1
  refine List.filterMap_congr fun call _ => ?_
  rw [callFact?_eq, Option.map_bind]
  simp only [Function.comp_def, Option.map_map]

section Coherent

variable {sources : List SourceFile} {unit : Path} {table : SymbolTable}
  (coherent : Coherent sources unit table)
include coherent

/-- A call goes from a definition of the table to a callable of the table. -/
theorem call_in_table {call : Nat × Nat} (member : call ∈ table.calls) :
    (∃ caller, table.symbols[call.1]? = some caller ∧ caller.fact.isDefinition = true) ∧
      ∃ callee, table.symbols[call.2]? = some callee := by
  obtain ⟨body, listed, resolved⟩ := List.mem_flatMap.mp member
  obtain ⟨callee, reached, rfl⟩ := List.mem_map.mp resolved
  have known := body.callees_known coherent.lambda_known callee reached
  exact ⟨coherent.defined body listed, _, List.getElem?_eq_getElem known⟩

theorem callsKnown_facts : CallsKnown table.facts := by
  intro caller callee reported
  obtain ⟨call, member, isCaller, isCallee⟩ := call_mem_facts reported
  obtain ⟨⟨source, atCaller, defined⟩, target, atCallee⟩ := call_in_table coherent member
  rw [idAt?, atCaller] at isCaller
  rw [idAt?, atCallee] at isCallee
  obtain rfl := Option.some.inj isCaller
  obtain rfl := Option.some.inj isCallee
  have sourceListed := List.mem_of_getElem? atCaller
  have targetListed := List.mem_of_getElem? atCallee
  constructor
  · refine ⟨source.fact, callable_mem_facts_iff.mpr ⟨source, sourceListed, rfl⟩, ?_, defined⟩
    exact (coherent.id_eq source sourceListed).symm
  · rw [coherent.id_eq target targetListed]
    exact mem_reportedIds (callable_mem_facts_iff.mpr ⟨target, targetListed, rfl⟩)

/-- Every call of the table is reported. -/
theorem reportedCallees_facts (id : CallableId) :
    (reportedCallees table.facts id).map some = table.calledBy id := by
  have noCalls :
      reportedCallees (table.symbols.map fun symbol => .callable symbol.fact) id = [] := by
    simp [reportedCallees, List.filterMap_map]
  have calls : reportedCallees table.facts id =
      reportedCallees (table.calls.filterMap table.callFact?) id := by
    rw [facts, reportedCallees, List.filterMap_append, ← reportedCallees, noCalls, List.nil_append]
    rfl
  rw [calls, reportedCallees, List.filterMap_filterMap, List.map_filterMap, calledBy,
    ← List.filterMap_eq_map, List.filterMap_filter]
  -- Both sides take from each call its callee, if the caller is the wanted one.
  refine List.filterMap_congr fun call member => ?_
  obtain ⟨⟨source, atCaller, _⟩, target, atCallee⟩ := call_in_table coherent member
  have isCaller : table.idAt? call.1 = some source.id := by rw [idAt?, atCaller]; rfl
  have isCallee : table.idAt? call.2 = some target.id := by rw [idAt?, atCallee]; rfl
  rw [callFact?_eq, isCaller, isCallee]
  by_cases here : source.id = id <;> simp [here, isCallee]

end Coherent

end SymbolTable

/-! ### The contract -/

/-- What an analysis promises of the facts of a unit that was loaded from some files. -/
structure Contract (sources : List SourceFile) (unit : UnitFacts) : Prop where
  ordered : CallablesFirst unit.facts
  calls_known : CallsKnown unit.facts
  located : ∀ symbol, Fact.callable symbol ∈ unit.facts →
    symbol.translationUnit = unit.translationUnit ∧ symbol.sourceFile ∈ pathsOf sources

theorem SymbolTable.contract_facts {sources : List SourceFile} {unit : UnitFacts}
    (same : unit.facts = (SymbolTable.ofFiles sources unit.translationUnit).facts) :
    Contract sources unit := by
  have coherent := coherent_ofFiles sources unit.translationUnit
  constructor
  · exact same ▸ callablesFirst_facts _
  · exact same ▸ callsKnown_facts coherent
  · intro symbol reported
    rw [same] at reported
    obtain ⟨entry, member, rfl⟩ := callable_mem_facts_iff.mp reported
    exact ⟨coherent.unit_eq entry member, coherent.source_loaded entry member⟩

/-- The facts of an analysis are those of the table of the unit that was loaded. -/
theorem facts_of_analyze {files : FileSystem} {grammar : Grammar} {main : Path}
    {arguments : List String} {unit : UnitFacts}
    (analyzed : analyze files grammar main arguments = .ok unit) :
    ∃ loaded, loadUnit files grammar (.ofArguments files arguments) main = .ok loaded ∧
      files.canonical? main = some unit.translationUnit ∧
      unit.facts = (SymbolTable.ofFiles loaded.files unit.translationUnit).facts := by
  unfold analyze at analyzed
  split at analyzed
  · cases analyzed
  · split at analyzed
    · cases analyzed
    · rename_i loaded success
      dsimp only at analyzed
      split at analyzed
      · cases analyzed
      · obtain rfl := Except.ok.inj analyzed
        obtain ⟨root, found, postOrder⟩ := postOrder_of_loadUnit success
        -- The main file is the last one that is loaded.
        have last : (loaded.files.getLast?.map SourceFile.path).getD main = root := by
          rw [← List.getLast?_map, ← pathsOf, postOrder.ends, Option.getD_some]
        refine ⟨loaded, success, ?_, rfl⟩
        rw [last, found]

/-- A unit that is analyzed reports its callables before its calls, all of them in its own name and
in files that were loaded, and of each call both ends, the caller as defined. An empty graph that
takes in the unit with its system headers gets every call that was resolved: the callees of each
callable are those of all its bodies, in the order of the calls, each once. -/
theorem analyze_loses_no_call {files : FileSystem} {grammar : Grammar} {main : Path}
    {arguments : List String} {unit : UnitFacts}
    (analyzed : analyze files grammar main arguments = .ok unit) :
    ∃ loaded, loadUnit files grammar (.ofArguments files arguments) main = .ok loaded ∧
      files.canonical? main = some unit.translationUnit ∧ Contract loaded.files unit ∧
      ∀ (root : DisplayRoot) (tools : Toolchain) (file path : Path) (given : List String),
        tools.files.canonical? file = some path → tools.analyze path given = .ok unit →
        ∃ after report, (Index.empty root).ingest tools file given true = .ok (after, report) ∧
          ∀ id, ∃ callees : List CallableId,
            (SymbolTable.ofFiles loaded.files unit.translationUnit).calledBy id =
              callees.map some ∧
            after.calleeIds id = callees.eraseDups := by
  obtain ⟨loaded, success, found, same⟩ := facts_of_analyze analyzed
  have contract : Contract loaded.files unit := SymbolTable.contract_facts same
  refine ⟨loaded, success, found, contract, ?_⟩
  intro root tools file path given leads again
  obtain ⟨after, report, ingested, callees⟩ :=
    Index.ingest_of_callsKnown contract.calls_known contract.ordered root leads again
  refine ⟨after, report, ingested, fun id => ⟨reportedCallees unit.facts id, ?_, callees id⟩⟩
  have coherent := SymbolTable.coherent_ofFiles loaded.files unit.translationUnit
  rw [same]
  exact (SymbolTable.reportedCallees_facts coherent id).symm

section Example

private def nodeIn (field kind text : String) (children : List SyntaxTree) : SyntaxTree :=
  .node ⟨kind, some field, true, false, false, false, text, 0⟩ children

private def callTo (name : String) : SyntaxTree :=
  nodeIn "" "call_expression" "" [nodeIn "function" "identifier" name [],
    nodeIn "arguments" "argument_list" "" []]

private def functionNamed (name : String) : SyntaxTree :=
  nodeIn "declarator" "function_declarator" "" [nodeIn "declarator" "identifier" name [],
    nodeIn "parameters" "parameter_list" "" []]

/-- The tree of `void g(), f(); void f() { g(); auto h = [] { g(); }; h(); g(); }`. -/
private def lambdaTree : SyntaxTree :=
  nodeIn "" "translation_unit" "" [
    nodeIn "" "declaration" "" [functionNamed "g", functionNamed "f"],
    nodeIn "" "function_definition" "" [functionNamed "f", nodeIn "body" "compound_statement" "" [
      callTo "g",
      nodeIn "" "declaration" "" [nodeIn "declarator" "init_declarator" "" [
        nodeIn "declarator" "identifier" "h" [],
        nodeIn "value" "lambda_expression" "" [
          nodeIn "body" "compound_statement" "" [callTo "g"]]]],
      callTo "h", callTo "g"]]]

private def lambdaFile : SourceFile := ⟨⟨"/w/m.cpp"⟩, "", lambdaTree, false⟩

private def lambdaSources : FileSystem := (FileSystem.empty ⟨"/w"⟩).addFile ⟨"/w/m.cpp"⟩ []

private def lambdaGrammar : Grammar := fun _ => some lambdaTree

private theorem lambda_loaded : loadUnit lambdaSources lambdaGrammar (.ofArguments lambdaSources [])
    ⟨"/w/m.cpp"⟩ = .ok ⟨[lambdaFile], []⟩ := by
  have found : lambdaSources.canonical? ⟨"/w/m.cpp"⟩ = some ⟨"/w/m.cpp"⟩ := by decide +kernel
  have read : readSource lambdaSources lambdaGrammar ⟨"/w/m.cpp"⟩ false = .ok lambdaFile := rfl
  have includes : lambdaFile.includes = [] := by decide +kernel
  have errors : lambdaFile.syntaxErrors = [] := by decide +kernel
  rw [loadUnit, found]
  simp only [read]
  rw [Frame.ofFile, includes, errors, load]
  dsimp only
  rw [load]
  rfl

private def lambdaFacts : UnitFacts :=
  ⟨⟨"/w/m.cpp"⟩, (SymbolTable.ofFiles [lambdaFile] ⟨"/w/m.cpp"⟩).facts, []⟩

private theorem lambda_analyzed :
    analyze lambdaSources lambdaGrammar ⟨"/w/m.cpp"⟩ [] = .ok lambdaFacts := by
  have isFile : lambdaSources.isFile ⟨"/w/m.cpp"⟩ = true := by decide +kernel
  rw [analyze, isFile, lambda_loaded]
  rfl

/-- The function calls one that is only declared, and a lambda of its own, which calls it too. -/
theorem declared_callee_kept : ∃ unit,
    analyze lambdaSources lambdaGrammar ⟨"/w/m.cpp"⟩ [] = .ok unit ∧ CallsKnown unit.facts ∧
    ∃ after report, (Index.empty ⟨none⟩).ingest (workspace lambdaSources lambdaGrammar)
        ⟨"m.cpp"⟩ [] true = .ok (after, report) ∧
      after.calleeIds ⟨"f()"⟩ = [⟨"g()"⟩, ⟨"f()::h"⟩] ∧ after.calleeIds ⟨"f()::h"⟩ = [⟨"g()"⟩] := by
  obtain ⟨loaded, success, _, contract, complete⟩ := analyze_loses_no_call lambda_analyzed
  obtain rfl := Except.ok.inj (success.symm.trans lambda_loaded)
  have found : lambdaSources.canonical? ⟨"m.cpp"⟩ = some ⟨"/w/m.cpp"⟩ := by decide +kernel
  obtain ⟨after, report, ingested, callees⟩ := complete ⟨none⟩
    (workspace lambdaSources lambdaGrammar) ⟨"m.cpp"⟩ ⟨"/w/m.cpp"⟩ [] found lambda_analyzed
  have calledBy (id : CallableId) {called : List CallableId}
      (resolved : (SymbolTable.ofFiles [lambdaFile] ⟨"/w/m.cpp"⟩).calledBy id = called.map some) :
      after.calleeIds id = called.eraseDups := by
    obtain ⟨same, isCalled, isCallee⟩ := callees id
    have injective : Function.Injective (List.map (some : CallableId → Option CallableId)) :=
      List.map_injective_iff.mpr fun _ _ => Option.some.inj
    obtain rfl := injective (isCalled.symm.trans resolved)
    exact isCallee
  refine ⟨lambdaFacts, lambda_analyzed, contract.calls_known, after, report, ingested, ?_, ?_⟩
  · exact @calledBy ⟨"f()"⟩ [⟨"g()"⟩, ⟨"f()::h"⟩, ⟨"g()"⟩] (by decide +kernel)
  · exact @calledBy ⟨"f()::h"⟩ [⟨"g()"⟩] (by decide +kernel)

end Example

end CallGraph.Cpp
