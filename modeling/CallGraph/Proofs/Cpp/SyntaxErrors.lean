import CallGraph.Cpp.Analysis
import CallGraph.Proofs.Cpp.FirstReached
import CallGraph.Proofs.Syntax.Faults

/-!
# Reports of syntax errors

Main result: `syntax_errors_reported`. Suppose that the parser flags every outermost fault, and all
that it lies in. Then a unit fails to be analyzed exactly if there is a fault in one of its files
outside system directories, and what it fails with is one error for each outermost fault of those
files, in the order in which the files are first reached and the faults stand in them. The outermost
faults of system headers are among the warnings.

The search for faults in one file comes down to `Node.Flagged.filter_visit_eq_outermostFaults`. That
errors and warnings are told apart only after loading changes nothing: each step of a load reports
something of its own severity for one file, the next one that is reached (`Reported.step`).
-/
namespace CallGraph.Cpp

open Node (outermostFaults)

/-! ### The faults of one file -/

/-- What is reported of a fault in a file. -/
def SourceFile.faultDiagnostic (file : SourceFile) (severity : Severity) (fault : Node) :
    Diagnostic :=
  file.diagnostic severity fault.start <|
    if fault.isMissing then s!"expected '{fault.kind}'" else s!"unexpected '{snippet fault.text}'"

/-- One diagnostic for each outermost fault of a file. -/
def SourceFile.faultDiagnostics (file : SourceFile) (severity : Severity) : List Diagnostic :=
  (outermostFaults (.ofTree file.tree)).map (file.faultDiagnostic severity)

/-- How bad the faults of a file are. -/
def SourceFile.faultSeverity (file : SourceFile) : Severity :=
  if file.isSystem then .warning else .error

theorem faultSeverity_isFatal (file : SourceFile) :
    file.faultSeverity.isFatal = !file.isSystem := by
  unfold SourceFile.faultSeverity
  cases file.isSystem <;> rfl

/-- A message is made for each fault and for nothing else. -/
theorem filterMap_syntaxMessage? (file : SourceFile) (severity : Severity) (nodes : List Node) :
    (nodes.filterMap fun node =>
      (syntaxMessage? node).map (file.diagnostic severity node.start)) =
        (nodes.filter Node.isFault).map (file.faultDiagnostic severity) := by
  rw [← List.filterMap_eq_map, List.filterMap_filter]
  refine List.filterMap_congr fun node _ => ?_
  cases missing : node.isMissing <;> cases error : node.isError <;>
    simp [syntaxMessage?, Node.isFault, SourceFile.faultDiagnostic, missing, error]

theorem syntaxErrors_eq_faultDiagnostics {file : SourceFile}
    (flagged : Node.Flagged (.ofTree file.tree)) :
    file.syntaxErrors = file.faultDiagnostics file.faultSeverity := by
  rw [SourceFile.syntaxErrors, SourceFile.faultDiagnostics]
  dsimp only
  split
  · have pruned := flagged.filter_visit_eq_outermostFaults fun node reported =>
      show (node.hasError || node.isMissing) = true by rw [reported, Bool.true_or]
    simp only [Node.isFault, Bool.not_or] at pruned
    rw [filterMap_syntaxMessage?, SourceFile.faultSeverity, ← pruned]
  · rename_i clean
    rw [flagged.outermostFaults_eq_nil (by simpa using clean), List.map_nil]

theorem severity_of_mem_syntaxErrors {file : SourceFile} {diagnostic : Diagnostic}
    (member : diagnostic ∈ file.syntaxErrors) : diagnostic.severity = file.faultSeverity := by
  rw [SourceFile.syntaxErrors] at member
  dsimp only at member
  split at member
  · rw [filterMap_syntaxMessage?] at member
    obtain ⟨fault, _, rfl⟩ := List.mem_map.mp member
    rfl
  · cases member

variable {files : FileSystem} {grammar : Grammar} {search : IncludeSearch} {root : Path}

/-! ### The reports of a load -/

/-- What has been reported of the files that have been reached: their syntax errors in order, as
errors outside system directories and among the warnings in them. -/
structure Reported (files : FileSystem) (grammar : Grammar) (search : IncludeSearch) (root : Path)
    (state : Loading) : Prop where
  errors : state.diagnostics.filter (·.severity.isFatal) =
    ((sourcesAt files grammar search root state.seen.reverse).filter (!·.isSystem)).flatMap
      SourceFile.syntaxErrors
  warnings : (((sourcesAt files grammar search root state.seen.reverse).filter
    (·.isSystem)).flatMap SourceFile.syntaxErrors).Sublist
      (state.diagnostics.filter (!·.severity.isFatal))

/-- A file that is reached next is reported as one of its kind. -/
theorem Reported.read {seen : List Path} {stack later : List Frame} {loaded : List SourceFile}
    {diagnostics : List Diagnostic} {path : Path} {file : SourceFile}
    (reported : Reported files grammar search root ⟨seen, stack, loaded, diagnostics⟩)
    (read : readSource files grammar path (systemFlag search root path) = .ok file) :
    Reported files grammar search root
      ⟨path :: seen, later, loaded, diagnostics ++ file.syntaxErrors⟩ := by
  obtain ⟨errors, warnings⟩ := reported
  -- All that is reported of the file goes to one side of the partition, and so does the file.
  have graded (diagnostic) (member : diagnostic ∈ file.syntaxErrors) :
      diagnostic.severity.isFatal = !file.isSystem := by
    rw [severity_of_mem_syntaxErrors member, faultSeverity_isFatal]
  constructor
  · simp only [List.reverse_cons, sourcesAt_append_of_ok read, List.filter_append, errors,
      List.flatMap_append]
    congr 1
    rw [List.filter_congr graded]
    cases flag : file.isSystem <;> simp [flag]
  · simp only [List.reverse_cons, sourcesAt_append_of_ok read, List.filter_append,
      List.flatMap_append]
    refine warnings.append ?_
    rw [List.filter_congr fun diagnostic member => congrArg not (graded diagnostic member)]
    cases flag : file.isSystem <;> simp [flag]

/-- A warning of another kind changes nothing. -/
theorem Reported.warn {seen seenLater : List Path} {stack later : List Frame}
    {loaded : List SourceFile} {diagnostics more : List Diagnostic}
    (reported : Reported files grammar search root ⟨seen, stack, loaded, diagnostics⟩)
    (same : sourcesAt files grammar search root seenLater.reverse =
      sourcesAt files grammar search root seen.reverse)
    (mild : ∀ diagnostic ∈ more, diagnostic.severity = .warning) :
    Reported files grammar search root ⟨seenLater, later, loaded, diagnostics ++ more⟩ := by
  obtain ⟨errors, warnings⟩ := reported
  constructor
  · have none : more.filter (·.severity.isFatal) = [] :=
      List.filter_eq_nil_iff.mpr fun diagnostic member => by
        simp [mild diagnostic member, Severity.isFatal]
    simp only [same, List.filter_append, errors, none, List.append_nil]
  · rw [same, List.filter_append]
    exact warnings.trans (List.sublist_append_left _ _)

theorem Reported.step {before after : Loading} (step : LoadStep files grammar search before after)
    (valid : DepthFirst files grammar search root before)
    (reported : Reported files grammar search root before) :
    Reported files grammar search root after := by
  -- A file that is new is not the main file, so that its place tells whether it is a system header.
  have flag {path : Path} (new : path ∉ before.seen) :
      systemFlag search root path = search.isSystem path := by
    have other : path ≠ root := fun same => new (same ▸ valid.root_seen)
    simp [systemFlag, other]
  cases step with
  | finish => exact ⟨reported.errors, reported.warnings⟩
  | unresolved nowhere =>
    refine reported.warn rfl fun diagnostic member => ?_
    rw [Include.missing, nowhere] at member
    dsimp only at member
    split at member
    · rw [List.mem_singleton.mp member]
      rfl
    · cases member
  | again => exact ⟨reported.errors, reported.warnings⟩
  | enter resolved new read => exact reported.read (flag new ▸ read)
  | passOver resolved new failure =>
    refine reported.warn ?_ fun diagnostic member => ?_
    · rw [List.reverse_cons, sourcesAt_append_of_error (flag new ▸ failure)]
    · rw [List.mem_singleton.mp member]
      rfl

theorem reported_of_loadUnit {main : Path} {unit : LoadedUnit}
    (success : loadUnit files grammar search main = .ok unit)
    (found : files.canonical? main = some root) :
    unit.diagnostics.filter (·.severity.isFatal) =
      ((firstReached files grammar search root).filter (!·.isSystem)).flatMap
        SourceFile.syntaxErrors ∧
    (((firstReached files grammar search root).filter (·.isSystem)).flatMap
      SourceFile.syntaxErrors).Sublist (unit.diagnostics.filter (!·.severity.isFatal)) := by
  rw [loadUnit, found] at success
  dsimp only at success
  split at success
  · cases success
  · rename_i first read
    have main : readSource files grammar root (systemFlag search root root) = .ok first := by
      simpa [systemFlag] using read
    -- The main file is read like any other, only that it never counts as a system header.
    have nothing : Reported files grammar search root ⟨[], [], [], []⟩ := ⟨rfl, .slnil⟩
    have start : Reported files grammar search root
        ⟨[root], [Frame.ofFile first], [], first.syntaxErrors⟩ := nothing.read main
    obtain ⟨last, ⟨_, inOrder, errors, warnings⟩, done, loaded⟩ := load_induction
      (motive := fun state => DepthFirst files grammar search root state ∧
        InOrder files grammar search root state ∧ Reported files grammar search root state)
      (by
        rintro before after step ⟨valid, inOrder, reported⟩
        exact ⟨valid.step step, inOrder.step step, reported.step step valid⟩)
      ⟨depthFirst_start read _, inOrder_start read _, start⟩
    rw [loaded] at success
    obtain rfl := Except.ok.inj success
    rw [inOrder.reverse_seen done] at errors warnings
    exact ⟨errors, warnings⟩

/-! ### The outcome of an analysis -/

/-- How the faults in the files of a unit are reported. -/
structure FaultsReported (files : FileSystem) (grammar : Grammar) (main : Path)
    (arguments : List String) (root : Path) (unit : LoadedUnit) : Prop where
  /-- The order in which files are first reached is not their order in the unit. -/
  reached : unit.files.Perm (firstReached files grammar (.ofArguments files arguments) root)
  /-- The main file is no system header, wherever it lies. -/
  isSystem : ∀ file ∈ unit.files,
    file.isSystem = systemFlag (.ofArguments files arguments) root file.path
  fails_iff :
    (∃ errors, analyze files grammar main arguments = .error (.analysisFailed main errors)) ↔
      ∃ file ∈ unit.files, file.isSystem = false ∧
        ∃ node : Node, node.Inside (.ofTree file.tree) ∧ node.isFault = true
  errors : ∀ errors,
    analyze files grammar main arguments = .error (.analysisFailed main errors) →
    errors = ((firstReached files grammar (.ofArguments files arguments) root).filter
      (!·.isSystem)).flatMap (·.faultDiagnostics .error)
  warnings : (((firstReached files grammar (.ofArguments files arguments) root).filter
    (·.isSystem)).flatMap (·.faultDiagnostics .warning)).Sublist
      (unit.diagnostics.filter (!·.severity.isFatal))
  analyzed : ∀ facts, analyze files grammar main arguments = .ok facts →
    facts.warnings = unit.diagnostics.filter (!·.severity.isFatal)
  /-- A fault is reported where it begins: right behind the text before it. -/
  placed : ∀ file ∈ unit.files, ∀ severity, ∀ fault ∈ outermostFaults (.ofTree file.tree),
    ∀ before rest, file.text.toList = before ++ rest → Position.size before = fault.start →
      (file.faultDiagnostic severity fault).file = file.path ∧
      (file.faultDiagnostic severity fault).line = (Position.behind before).line ∧
      (file.faultDiagnostic severity fault).column = (Position.behind before).column

/-- What an analysis makes of a unit: its errors if there are any, and otherwise its facts with its
warnings. -/
theorem analyze_of_loadUnit {main : Path} {arguments : List String} {unit : LoadedUnit}
    (isFile : files.isFile main = true)
    (loaded : loadUnit files grammar (.ofArguments files arguments) main = .ok unit) :
    ∃ name facts, analyze files grammar main arguments =
      if unit.diagnostics.filter (·.severity.isFatal) = [] then
        .ok ⟨name, facts, unit.diagnostics.filter (!·.severity.isFatal)⟩
      else .error (.analysisFailed main (unit.diagnostics.filter (·.severity.isFatal))) := by
  rw [analyze, isFile, loaded]
  simp only [List.partition_eq_filter_filter, ne_eq, ite_not]
  exact ⟨_, _, rfl⟩

/-- The faults of all files of a kind are reported in the order of the files. -/
theorem flatMap_syntaxErrors {sources : List SourceFile}
    (flagged : ∀ file ∈ sources, Node.Flagged (.ofTree file.tree)) (kind : SourceFile → Bool)
    (severity : Severity) (graded : ∀ file, kind file = true → file.faultSeverity = severity) :
    (sources.filter kind).flatMap SourceFile.syntaxErrors =
      (sources.filter kind).flatMap (·.faultDiagnostics severity) := by
  refine List.flatMap_congr fun file kept => ?_
  obtain ⟨member, ofKind⟩ := List.mem_filter.mp kept
  rw [syntaxErrors_eq_faultDiagnostics (flagged file member), graded file ofKind]

theorem flatMap_faultDiagnostics_ne_nil_iff (sources : List SourceFile) (severity : Severity) :
    (sources.filter (!·.isSystem)).flatMap (·.faultDiagnostics severity) ≠ [] ↔
      ∃ file ∈ sources, file.isSystem = false ∧
        ∃ node : Node, node.Inside (.ofTree file.tree) ∧ node.isFault = true := by
  simp only [ne_eq, List.flatMap_eq_nil_iff, List.mem_filter, SourceFile.faultDiagnostics,
    List.map_eq_nil_iff, Node.outermostFaults_eq_nil_iff]
  simp

/-- If a parser flags every outermost fault and all that it lies in, a unit fails to be analyzed
exactly if there is a fault outside system directories, with one error for each outermost fault. -/
theorem syntax_errors_reported {files : FileSystem} {grammar : Grammar} {main : Path}
    {arguments : List String} {unit : LoadedUnit} (isFile : files.isFile main = true)
    (loaded : loadUnit files grammar (.ofArguments files arguments) main = .ok unit)
    (flagged : ∀ file ∈ unit.files, Node.Flagged (.ofTree file.tree)) :
    ∃ root, files.canonical? main = some root ∧
      FaultsReported files grammar main arguments root unit := by
  obtain ⟨root, found, postOrder⟩ := postOrder_of_loadUnit loaded
  have reached := postOrder.perm_firstReached
  obtain ⟨errors, warnings⟩ := reported_of_loadUnit loaded found
  -- What each file reports is known from its tree; the load has it in the order of the files.
  have flaggedReached : ∀ file ∈ firstReached files grammar (.ofArguments files arguments) root,
      Node.Flagged (.ofTree file.tree) := fun file member =>
    flagged file (reached.mem_iff.mpr member)
  rw [flatMap_syntaxErrors flaggedReached _ .error fun file own => by
    simpa [SourceFile.faultSeverity] using own] at errors
  rw [flatMap_syntaxErrors flaggedReached _ .warning fun file system => by
    simp [SourceFile.faultSeverity, system]] at warnings
  obtain ⟨name, facts, outcome⟩ := analyze_of_loadUnit isFile loaded
  refine ⟨root, found, reached, ?_, ?_, ?_, warnings, ?_, ?_⟩
  · exact fun file member => (readSource_fields (postOrder.read file member)).2
  · simp only [reached.mem_iff]
    rw [← flatMap_faultDiagnostics_ne_nil_iff _ .error, ← errors, outcome]
    split
    · rename_i clean
      simp [clean]
    · rename_i faulty
      simp [faulty]
  · intro reported fails
    rw [outcome] at fails
    split at fails
    · cases fails
    · cases fails
      exact errors
  · intro result succeeds
    rw [outcome] at succeeds
    split at succeeds
    · cases succeeds
      rfl
    · cases succeeds
  · intro file _ severity fault _ before rest split begins
    rw [SourceFile.faultDiagnostic, SourceFile.diagnostic, ← begins,
      Position.ofOffset_eq_behind split]
    exact ⟨rfl, rfl, rfl⟩

section Example

private def nodeAt (kind : String) (isMissing isError hasError : Bool) (text : String)
    (start : Nat) (children : List SyntaxTree) : SyntaxTree :=
  .node ⟨kind, none, true, isMissing, isError, hasError, text, start⟩ children

private def includeOf (quoted : String) (start : Nat) : SyntaxTree :=
  .node ⟨"preproc_include", none, true, false, false, false, "", start⟩
    [.node ⟨"string_literal", some "path", true, false, false, false, quoted, start⟩ []]

private def unfinishedText : String := "#include \"a.h\"\n#include \"s.h\"\nint x"

/-- The declaration lacks its semicolon. -/
private def unfinishedTree : SyntaxTree :=
  nodeAt "translation_unit" false false true "" 0 [includeOf "\"a.h\"" 0, includeOf "\"s.h\"" 15,
    nodeAt "declaration" false false true "int x" 30 [
      nodeAt "identifier" false false false "x" 34 [], nodeAt ";" true false true "" 35 []]]

/-- There is nothing but text that fits nowhere, with a token that was invented in it. -/
private def strayTree : SyntaxTree :=
  nodeAt "translation_unit" false false true "" 0 [nodeAt "ERROR" false true true "@(" 0
    [nodeAt ")" true false true "" 2 []]]

private def faultyGrammar : Grammar := fun text =>
  some (if text = unfinishedText then unfinishedTree else strayTree)

private def faultyFiles : FileSystem :=
  [(⟨"/w/m.cpp"⟩, unfinishedText), (⟨"/w/a.h"⟩, "@("), (⟨"/w/sys/s.h"⟩, "@(")].foldl
    (fun files (path, text) => files.addFile path (Utf8.encode text)) (.empty ⟨"/w"⟩)

private def faultySearch : IncludeSearch := .ofArguments faultyFiles ["-isystem", "sys"]

/-- The main file and one of its headers have a fault each that counts, the system header one that
does not. The token that is missing inside of other stray text is not reported. -/
theorem faults_outside_system_directories : ∃ unit,
    loadUnit faultyFiles faultyGrammar faultySearch ⟨"m.cpp"⟩ = .ok unit ∧
    analyze faultyFiles faultyGrammar ⟨"m.cpp"⟩ ["-isystem", "sys"] =
      .error (.analysisFailed ⟨"m.cpp"⟩ [⟨.error, "expected ';'", ⟨"/w/m.cpp"⟩, 3, 6⟩,
        ⟨.error, "unexpected '@('", ⟨"/w/a.h"⟩, 1, 1⟩]) ∧
    ⟨.warning, "unexpected '@('", ⟨"/w/sys/s.h"⟩, 1, 1⟩ ∈ unit.diagnostics := by
  have isFile : faultyFiles.isFile ⟨"m.cpp"⟩ = true := by decide +kernel
  have found : faultyFiles.canonical? ⟨"m.cpp"⟩ = some ⟨"/w/m.cpp"⟩ := by decide +kernel
  have read : readSource faultyFiles faultyGrammar ⟨"/w/m.cpp"⟩ false =
    .ok ⟨⟨"/w/m.cpp"⟩, unfinishedText, unfinishedTree, false⟩ := rfl
  obtain ⟨unit, loaded, postOrder⟩ : ∃ unit,
      loadUnit faultyFiles faultyGrammar faultySearch ⟨"m.cpp"⟩ = .ok unit ∧
        PostOrder faultyFiles faultyGrammar faultySearch ⟨"/w/m.cpp"⟩ unit :=
    loadUnit_of_readSource found read
  have flagged : ∀ file ∈ unit.files, Node.Flagged (.ofTree file.tree) := by
    intro file member
    have parsed := grammar_of_readSource (postOrder.read file member)
    rw [faultyGrammar, Option.some.injEq] at parsed
    rw [← parsed]
    split <;> decide +kernel
  obtain ⟨root, again, reported⟩ := syntax_errors_reported isFile loaded flagged
  obtain rfl := Option.some.inj (found.symm.trans again)
  have errors : ((firstReached faultyFiles faultyGrammar faultySearch ⟨"/w/m.cpp"⟩).filter
      (!·.isSystem)).flatMap (·.faultDiagnostics .error) =
        [⟨.error, "expected ';'", ⟨"/w/m.cpp"⟩, 3, 6⟩,
          ⟨.error, "unexpected '@('", ⟨"/w/a.h"⟩, 1, 1⟩] := by decide +kernel
  have warnings : ((firstReached faultyFiles faultyGrammar faultySearch ⟨"/w/m.cpp"⟩).filter
      (·.isSystem)).flatMap (·.faultDiagnostics .warning) =
        [⟨.warning, "unexpected '@('", ⟨"/w/sys/s.h"⟩, 1, 1⟩] := by decide +kernel
  obtain ⟨file, member, own, faulty⟩ := (flatMap_faultDiagnostics_ne_nil_iff _ .error).mp
    (errors ▸ List.cons_ne_nil _ _)
  obtain ⟨diagnostics, fails⟩ := reported.fails_iff.mpr
    ⟨file, reported.reached.mem_iff.mpr member, own, faulty⟩
  obtain rfl := (reported.errors diagnostics fails).trans errors
  refine ⟨unit, loaded, fails, ?_⟩
  have warned : _ ∈ unit.diagnostics.filter _ :=
    reported.warnings.subset (warnings ▸ List.mem_cons_self)
  exact (List.mem_filter.mp warned).1

end Example

end CallGraph.Cpp
