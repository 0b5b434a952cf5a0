import CallGraph.Proofs.Index.Calls
import CallGraph.Proofs.Index.Order

/-!
# Units that know what they call

A graph takes over a call if its caller is defined and its callee is known. So a unit that reports
both ends of its calls and defines the callers loses none of them in an empty graph
(`Index.ingest_of_callsKnown`).
-/
namespace CallGraph

/-- Both ends of every call are callables of the unit, and the unit defines the caller. -/
def CallsKnown (facts : List Fact) : Prop :=
  ∀ caller callee, Fact.call caller callee ∈ facts →
    Defines facts caller ∧ callee ∈ reportedIds facts

namespace CallsKnown

variable {facts : List Fact} (known : CallsKnown facts)
include known

theorem selfContained (ordered : CallablesFirst facts) : SelfContained [] facts where
  ordered := ordered
  unfiltered := by
    rw [skippedCount, List.countP_eq_zero]
    rintro (symbol | ⟨caller, callee⟩) _ <;> simp
  ends_reported caller callee member :=
    ⟨(known caller callee member).1.reported, (known caller callee member).2⟩

/-- By itself the unit has all calls that it reports, each once. -/
theorem callees_unitRow (root : DisplayRoot) (id : CallableId) :
    ((unitRow root facts id).map GraphRow.callees).getD [] =
      (reportedCallees facts id).eraseDups := by
  by_cases defines : Defines facts id
  · obtain ⟨definition, last⟩ := Option.ne_none_iff_exists'.mp ((defines_iff root).mp defines)
    rw [unitRow, mergedRow_of_definition unfinished_none last]
    rfl
  · -- A callable that the unit does not define is not the caller of any of its calls.
    have idle : reportedCallees facts id = [] := List.eq_nil_iff_forall_not_mem.mpr
      fun callee called => defines (known id callee (call_of_mem_reportedCallees called)).1
    rw [unitRow, mergedRow_of_declarations unfinished_none (lastDefinition_eq_none root defines),
      idle]
    cases (recordsOf root facts id).head? <;> rfl

end CallsKnown

/-- An empty graph has all calls of such a unit once it is ingested with its system headers. -/
theorem Index.ingest_of_callsKnown {unit : UnitFacts} (known : CallsKnown unit.facts)
    (ordered : CallablesFirst unit.facts) (root : DisplayRoot) {tools : Toolchain}
    {file path : Path} {arguments : List String} (found : tools.files.canonical? file = some path)
    (analyzed : tools.analyze path arguments = .ok unit) :
    ∃ after report, (empty root).ingest tools file arguments true = .ok (after, report) ∧
      ∀ id, after.calleeIds id = (reportedCallees unit.facts id).eraseDups := by
  refine ⟨_, _, ingestExcluding_eq_ok_iff.mpr ⟨path, unit, _, found, analyzed, rfl, rfl, rfl⟩, ?_⟩
  intro id
  have wellFormed : WellFormed ((empty root).mergeFacts [] unit.facts).nodes :=
    (mergedFrom_mergeFacts .nil [] unit.facts).wellFormed
  have start : WellFormed (empty root).nodes := .nil
  have row := row?_mergeFacts start (known.selfContained ordered) id
  rw [calleeIds_eq_row? wellFormed, ← known.callees_unitRow root id]
  exact congrArg (fun row => (Option.map GraphRow.callees row).getD []) row

end CallGraph
