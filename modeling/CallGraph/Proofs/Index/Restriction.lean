import CallGraph.Proofs.Index.Calls
import CallGraph.Proofs.Index.Reference

/-!
# Leaving out system headers

Main result: `ingest_restricts`. Ingesting a unit without the callables of system headers gives the
part of its graph that the other callables span: their records in the same order, and of their
callees those that are left, in the same order.

Both graphs are read callable by callable. The callables that are left out are unknown to the
smaller graph, so it drops the calls to them where they would have been merged, and a callable is
as final without such calls as it is with them.
-/
namespace CallGraph

/-- The observations of each callable are all inside some directories or all outside. -/
def Uniform (excluded : List Path) (facts : List Fact) : Prop :=
  ∀ first second, Fact.callable first ∈ facts → Fact.callable second ∈ facts →
    first.id = second.id → excluded.any first.sourceFile.startsWith =
      excluded.any second.sourceFile.startsWith

/-- Whether a unit observes a callable outside some directories. -/
def observedOutside (excluded : List Path) (facts : List Fact) (id : CallableId) : Bool :=
  facts.any fun
    | .callable symbol => symbol.id = id && !excluded.any symbol.sourceFile.startsWith
    | .call _ _ => false

section Observations

variable {excluded : List Path} {facts : List Fact}

theorem Uniform.observedOutside_eq (uniform : Uniform excluded facts) {symbol : SymbolFact}
    (member : Fact.callable symbol ∈ facts) :
    observedOutside excluded facts symbol.id = !excluded.any symbol.sourceFile.startsWith := by
  cases system : excluded.any symbol.sourceFile.startsWith with
  | false => exact List.any_eq_true.mpr ⟨_, member, by simp [system]⟩
  | true =>
    rw [observedOutside, Bool.not_true, List.any_eq_false]
    intro fact listed
    cases fact with
    | callable other =>
      by_cases same : other.id = symbol.id
      · simp [same, uniform other symbol listed member same, system]
      · simp [same]
    | call caller callee => simp

/-- Leaving out facts leaves out all that is known of some callables, and nothing else. -/
theorem Uniform.observations_eq (uniform : Uniform excluded facts) (root : DisplayRoot) :
    observations root excluded facts = (observations root [] facts).filter fun record =>
      observedOutside excluded facts record.id := by
  rw [observations, observations, List.filter_filterMap]
  apply List.filterMap_congr
  intro fact member
  cases fact with
  | callable symbol =>
    have kept := uniform.observedOutside_eq member
    cases system : excluded.any symbol.sourceFile.startsWith with
    | false => simp [system, kept, Option.filter_some]
    | true => simp [system, kept, Option.filter_some]
  | call caller callee => rfl

end Observations

/-- A row without some of its callees. -/
def GraphRow.restrict (keep : CallableId → Bool) (row : GraphRow) : GraphRow :=
  ⟨row.callable, row.callees.filter keep⟩

theorem mergedRow_filter (keep : CallableId → Bool) (records : List Callable)
    (callees : List CallableId) :
    mergedRow none records (callees.filter keep) =
      (mergedRow none records callees).map (GraphRow.restrict keep) := by
  -- Only a definition has callees in its row, so a declaration has nothing to drop.
  cases last : (records.filter Callable.isDefinition).getLast? with
  | none =>
    rw [mergedRow_of_undefining last, mergedRow_of_undefining last]
    cases records.head? <;> rfl
  | some definition =>
    rw [mergedRow_of_definition unfinished_none last, mergedRow_of_definition unfinished_none last,
      Option.map_some, GraphRow.restrict, filter_eraseDups]

/-- One graph is the part of another that some callables span. -/
structure Restricts (keep : CallableId → Bool) (whole part : List GraphNode) : Prop where
  ids : part.map GraphNode.key = (whole.map GraphNode.key).filter keep
  row : ∀ id, row? part id =
    if keep id = true then (row? whole id).map (GraphRow.restrict keep) else none

section Unit

variable (root : DisplayRoot) {excluded : List Path} {facts : List Fact}
  (ordered : CallablesFirst facts)
include ordered

theorem keys_mergeFacts_empty (excluded : List Path) :
    ((Index.empty root).mergeFacts excluded facts).nodes.map GraphNode.key =
      ((observations root excluded facts).map Callable.id).eraseDups := by
  have wellFormed : WellFormed (Index.empty root).nodes := .nil
  have ids := (mergesById_mergeFacts wellFormed excluded ordered).ids
  simpa [Index.empty, Index.ids] using ids

theorem row?_mergeFacts_empty (excluded : List Path) (id : CallableId) :
    row? ((Index.empty root).mergeFacts excluded facts).nodes id =
      mergedRow none ((observations root excluded facts).filter (·.id = id))
        ((reportedCallees facts id).filter
          (· ∈ (observations root excluded facts).map Callable.id)) := by
  have wellFormed : WellFormed (Index.empty root).nodes := .nil
  have row := (mergesById_mergeFacts wellFormed excluded ordered).row id
  simpa [Index.empty, Index.ids, row?, locate?] using row

theorem restricts_mergeFacts (uniform : Uniform excluded facts) :
    Restricts (observedOutside excluded facts) ((Index.empty root).mergeFacts [] facts).nodes
      ((Index.empty root).mergeFacts excluded facts).nodes where
  ids := by
    rw [keys_mergeFacts_empty root ordered, keys_mergeFacts_empty root ordered,
      uniform.observations_eq, filter_eraseDups, List.filter_map]
    rfl
  row := by
    intro id
    have split := uniform.observations_eq root
    rw [row?_mergeFacts_empty root ordered, row?_mergeFacts_empty root ordered]
    by_cases keep : observedOutside excluded facts id = true
    · have records : (observations root excluded facts).filter (·.id = id) =
          (observations root [] facts).filter (·.id = id) := by
        rw [split, List.filter_filter]
        apply List.filter_congr
        intro record _
        by_cases here : record.id = id <;> simp [here, keep]
      -- A callee is known to the part if it is known to the whole and kept.
      have callees : ((reportedCallees facts id).filter
            (· ∈ (observations root [] facts).map Callable.id)).filter
              (observedOutside excluded facts) =
          (reportedCallees facts id).filter
            (· ∈ (observations root excluded facts).map Callable.id) := by
        rw [split, List.filter_filter]
        apply List.filter_congr
        intro callee _
        rw [Bool.eq_iff_iff]
        simp only [Bool.and_eq_true, decide_eq_true_eq, List.mem_map, List.mem_filter]
        constructor
        · rintro ⟨kept, record, member, rfl⟩
          exact ⟨record, ⟨member, kept⟩, rfl⟩
        · rintro ⟨record, ⟨member, kept⟩, rfl⟩
          exact ⟨kept, record, member, rfl⟩
      rw [if_pos keep, ← mergedRow_filter, records, callees]
    · have none : (observations root excluded facts).filter (·.id = id) = [] := by
        rw [split, List.filter_filter, List.filter_eq_nil_iff]
        intro record _
        by_cases here : record.id = id <;> simp [here, keep]
      rw [if_neg keep, none]
      rfl

end Unit

namespace Index

section Restricts

variable {whole part : Index} (wellFormed : WellFormed whole.nodes)
  (partWellFormed : WellFormed part.nodes) {keep : CallableId → Bool}
  (restricts : Restricts keep whole.nodes part.nodes)

include restricts

theorem find?_of_restricts {id : CallableId} (kept : keep id = true) :
    part.find? id = whole.find? id := by
  rw [find?_eq_row?, find?_eq_row?, restricts.row, if_pos kept, Option.map_map]
  rfl

include wellFormed

theorem filterMap_find?_of_restricts (ids : List CallableId) :
    (ids.filter keep).filterMap part.find? =
      (ids.filterMap whole.find?).filter fun record => keep record.id := by
  rw [List.filterMap_filter, List.filter_filterMap]
  apply List.filterMap_congr
  intro id _
  have same : ∀ record, whole.find? id = some record → record.id = id :=
    fun record found => ((find?_eq_some_iff wellFormed).mp found).2
  by_cases kept : keep id = true
  · rw [if_pos kept, find?_of_restricts restricts kept]
    cases found : whole.find? id with
    | none => rfl
    | some record => rw [Option.filter_some, same record found, if_pos kept]
  · rw [if_neg kept]
    cases found : whole.find? id with
    | none => rfl
    | some record => rw [Option.filter_some, same record found, if_neg kept]

include partWellFormed

theorem callables_of_restricts :
    part.callables = whole.callables.filter fun record => keep record.id := by
  have ids : part.ids = whole.ids.filter keep := restricts.ids
  rw [callables_eq_filterMap wellFormed, callables_eq_filterMap partWellFormed, ids,
    filterMap_find?_of_restricts wellFormed restricts]

theorem calleesOf_of_restricts (id : CallableId) :
    part.calleesOf id =
      if keep id = true then (whole.calleesOf id).filter fun record => keep record.id else [] := by
  have callees : part.calleeIds id =
      if keep id = true then (whole.calleeIds id).filter keep else [] := by
    rw [calleeIds_eq_row? wellFormed, calleeIds_eq_row? partWellFormed, restricts.row]
    split
    · cases row? whole.nodes id <;> rfl
    · rfl
  rw [calleesOf_eq_filterMap wellFormed, calleesOf_eq_filterMap partWellFormed, callees]
  split
  · exact filterMap_find?_of_restricts wellFormed restricts _
  · rfl

end Restricts

/-- Without system headers, the ingest of a unit into an empty index succeeds as with them, and
gives the part of the graph that the callables outside the system directories span. -/
theorem ingest_restricts (root : DisplayRoot) (tools : Toolchain) {file path : Path}
    {arguments : List String} {unit : UnitFacts} (found : tools.files.canonical? file = some path)
    (analyzed : tools.analyze path arguments = .ok unit) (ordered : CallablesFirst unit.facts)
    (uniform : Uniform (tools.systemDirectories arguments) unit.facts) :
    ∃ whole part wholeReport partReport,
      (empty root).ingest tools file arguments true = .ok (whole, wholeReport) ∧
      (empty root).ingest tools file arguments false = .ok (part, partReport) ∧
      let keep := observedOutside (tools.systemDirectories arguments) unit.facts
      part.root = whole.root ∧ part.ingested = whole.ingested ∧
      part.callables = whole.callables.filter (fun record => keep record.id) ∧
      ∀ id, part.calleesOf id =
        if keep id = true then (whole.calleesOf id).filter (fun record => keep record.id)
        else [] := by
  have succeeds : ∀ keepSystem, ∃ after report,
      (empty root).ingest tools file arguments keepSystem = .ok (after, report) ∧
      after = ⟨root, ((empty root).mergeFacts (tools.excludedDirectories arguments keepSystem)
        unit.facts).nodes, addPath [] path⟩ := fun keepSystem =>
    ⟨_, _, ingestExcluding_eq_ok_iff.mpr ⟨path, unit, _, found, analyzed, rfl, rfl, rfl⟩, rfl⟩
  have wellFormed : ∀ excluded, WellFormed ((empty root).mergeFacts excluded unit.facts).nodes :=
    fun excluded => (mergedFrom_mergeFacts .nil excluded unit.facts).wellFormed
  obtain ⟨whole, wholeReport, wholeSuccess, rfl⟩ := succeeds true
  obtain ⟨part, partReport, partSuccess, rfl⟩ := succeeds false
  have restricts := restricts_mergeFacts root ordered uniform
  refine ⟨_, _, wholeReport, partReport, wholeSuccess, partSuccess, rfl, rfl, ?_, ?_⟩
  · exact callables_of_restricts (wellFormed _) (wellFormed _) restricts
  · exact calleesOf_of_restricts (wellFormed _) (wellFormed _) restricts

section Example

private def functionAt (file name : String) (isDefinition : Bool) : SymbolFact :=
  ⟨.function, [], name, name ++ "()", "void", isDefinition, ⟨file⟩, ⟨"/w/a.cpp"⟩⟩

/-- A definition that calls a function of a system header and one of its own. -/
private def headerUnit : UnitFacts where
  translationUnit := ⟨"/w/a.cpp"⟩
  facts := [.callable (functionAt "/w/a.cpp" "f" true), .callable (functionAt "/usr/h.h" "h" false),
    .callable (functionAt "/w/a.cpp" "g" false), .call ⟨"f()"⟩ ⟨"h()"⟩, .call ⟨"f()"⟩ ⟨"g()"⟩]
  warnings := []

private def headerTools : Toolchain where
  files := (FileSystem.empty ⟨"/w"⟩).addFile ⟨"/w/a.cpp"⟩ []
  analyze _ _ := .ok headerUnit
  systemDirectories := systemDirectories ((FileSystem.empty ⟨"/w"⟩).addFile ⟨"/w/a.cpp"⟩ [])

/-- The function of the header is left out, and so is the call of it. -/
theorem ingest_without_header :
    headerTools.files.canonical? ⟨"a.cpp"⟩ = some ⟨"/w/a.cpp"⟩ ∧
      headerTools.analyze ⟨"/w/a.cpp"⟩ ["-isystem", "/usr"] = .ok headerUnit ∧
      CallablesFirst headerUnit.facts ∧
      Uniform (headerTools.systemDirectories ["-isystem", "/usr"]) headerUnit.facts ∧
      ∃ whole part wholeReport partReport,
        (empty ⟨none⟩).ingest headerTools ⟨"a.cpp"⟩ ["-isystem", "/usr"] true =
          .ok (whole, wholeReport) ∧
        (empty ⟨none⟩).ingest headerTools ⟨"a.cpp"⟩ ["-isystem", "/usr"] false =
          .ok (part, partReport) ∧
        whole.callables.map Callable.id = [⟨"f()"⟩, ⟨"h()"⟩, ⟨"g()"⟩] ∧
        part.callables.map Callable.id = [⟨"f()"⟩, ⟨"g()"⟩] ∧
        (part.calleesOf ⟨"f()"⟩).map Callable.id = [⟨"g()"⟩] := by
  have found : headerTools.files.canonical? ⟨"a.cpp"⟩ = some ⟨"/w/a.cpp"⟩ := by decide +kernel
  have ordered : CallablesFirst headerUnit.facts :=
    ⟨[functionAt "/w/a.cpp" "f" true, functionAt "/usr/h.h" "h" false,
      functionAt "/w/a.cpp" "g" false], [(⟨"f()"⟩, ⟨"h()"⟩), (⟨"f()"⟩, ⟨"g()"⟩)], rfl⟩
  have directories : headerTools.systemDirectories ["-isystem", "/usr"] = [⟨"/usr"⟩] := by
    decide +kernel
  have uniform : Uniform [⟨"/usr"⟩] headerUnit.facts := by
    intro first second atFirst atSecond same
    simp only [headerUnit, List.mem_cons, Fact.callable.injEq, reduceCtorEq, List.not_mem_nil,
      or_false] at atFirst atSecond
    rcases atFirst with rfl | rfl | rfl <;> rcases atSecond with rfl | rfl | rfl <;>
      first | exact absurd same (by decide) | rfl
  rw [← directories] at uniform
  obtain ⟨whole, part, wholeReport, partReport, wholeSuccess, partSuccess, _, _, records,
    callees⟩ := ingest_restricts ⟨none⟩ headerTools found rfl ordered uniform
  have evaluated : ((empty ⟨none⟩).ingest headerTools ⟨"a.cpp"⟩ ["-isystem", "/usr"]
        true).toOption.map (fun result =>
          (result.1.callables.map Callable.id, result.1.calleesOf ⟨"f()"⟩)) =
      some ([⟨"f()"⟩, ⟨"h()"⟩, ⟨"g()"⟩],
        [(functionAt "/usr/h.h" "h" false).toCallable ⟨none⟩,
          (functionAt "/w/a.cpp" "g" false).toCallable ⟨none⟩]) := by decide +kernel
  rw [wholeSuccess] at evaluated
  simp only [Except.toOption, Option.map_some, Option.some.injEq, Prod.mk.injEq] at evaluated
  refine ⟨found, rfl, ordered, uniform, whole, part, wholeReport, partReport, wholeSuccess,
    partSuccess, evaluated.1, ?_, ?_⟩
  · have ids : part.callables.map Callable.id = (whole.callables.map Callable.id).filter
        (observedOutside (headerTools.systemDirectories ["-isystem", "/usr"])
          headerUnit.facts) := by
      rw [records, List.filter_map]
      rfl
    rw [ids, evaluated.1]
    decide +kernel
  · rw [callees, evaluated.2]
    decide +kernel

end Example

end Index

end CallGraph
