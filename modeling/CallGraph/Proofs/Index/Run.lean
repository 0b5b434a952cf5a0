import CallGraph.Proofs.Index.Merge
import Mathlib.Data.List.Induction

/-!
# Runs of ingests

Main result: `ingest_run_invariants`. Whatever is ingested into an empty index, in whatever order
and with whatever success, the graph stays well formed, each ingest only extends what was known,
and the record and the callees of a caller come from one and the same ingest.

The proof is an induction on the run. The step is the invariant of one merge (`MergedFrom`): a node
with callees is either as it was before the ingest, or altogether from the facts of this ingest.
-/
namespace CallGraph

/-- A file to ingest. Each request has its own workspace and excludes directories of its own, so
files, their analysis and what counts as a system header may change from one request to the
next. -/
structure IngestRequest where
  workspace : Workspace
  excluded : List Path
  file : Path
  arguments : List String

/-- The unit that the analysis of a request reports. -/
def IngestRequest.Reports (request : IngestRequest) (unit : UnitFacts) : Prop :=
  ∃ path, request.workspace.files.canonical? request.file = some path ∧
    request.workspace.analyze path request.arguments = .ok unit

namespace Index

/-- The index after a request; a request that fails leaves it as it is. -/
def perform (index : Index) (request : IngestRequest) : Index :=
  match index.ingestExcluding request.workspace request.excluded request.file
    request.arguments with
  | .ok (after, _) => after
  | .error _ => index

/-- The index after some requests, from an empty one. -/
def run (root : DisplayRoot) (requests : List IngestRequest) : Index :=
  requests.foldl perform (.empty root)

/-- Some requests lead to the index. -/
def Reachable (index : Index) : Prop := ∃ root requests, index = run root requests

theorem run_append (root : DisplayRoot) (requests : List IngestRequest) (request : IngestRequest) :
    run root (requests ++ [request]) = (run root requests).perform request := by
  simp [run]

/-- An ingest succeeds with the merge of the unit that the analysis reports. -/
theorem ingestExcluding_eq_ok_iff {workspace : Workspace} {index after : Index}
    {excluded : List Path} {file : Path} {arguments : List String} {report : IngestReport} :
    index.ingestExcluding workspace excluded file arguments = .ok (after, report) ↔
      ∃ path unit merge, workspace.files.canonical? file = some path ∧
        workspace.analyze path arguments = .ok unit ∧
        merge = index.mergeFacts excluded unit.facts ∧
        after = ⟨index.root, merge.nodes, addPath index.ingested path⟩ ∧
        report = ⟨merge.updated, merge.edgesAdded, merge.filtered, unit.warnings⟩ := by
  unfold ingestExcluding
  cases found : workspace.files.canonical? file with
  | none => simp
  | some path =>
    cases analyzed : workspace.analyze path arguments with
    | error error => simp [analyzed]
    | ok unit => simp [analyzed, eq_comm]

/-- A request leaves the index as it is, or merges the unit that its analysis reports. -/
theorem perform_cases (index : Index) (request : IngestRequest) :
    index.perform request = index ∨
      ∃ unit, request.Reports unit ∧ (index.perform request).root = index.root ∧
        (index.perform request).nodes = (index.mergeFacts request.excluded unit.facts).nodes := by
  unfold perform
  split
  · rename_i after report success
    obtain ⟨path, unit, merge, found, analyzed, rfl, rfl, rfl⟩ := ingestExcluding_eq_ok_iff.mp success
    exact .inr ⟨unit, ⟨path, found, analyzed⟩, rfl, rfl⟩
  · exact .inl rfl

/-- What is reachable stays so under an ingest. -/
theorem Reachable.ingest {index after : Index} (reachable : index.Reachable)
    {tools : Toolchain} {file : Path} {arguments : List String} {keepSystem : Bool}
    {report : IngestReport}
    (success : index.ingest tools file arguments keepSystem = .ok (after, report)) :
    after.Reachable := by
  obtain ⟨root, requests, rfl⟩ := reachable
  refine ⟨root, requests ++ [⟨tools.toWorkspace,
    tools.excludedDirectories arguments keepSystem, file, arguments⟩], ?_⟩
  unfold Index.ingest at success
  rw [run_append, perform, success]

@[simp] theorem root_run (root : DisplayRoot) (requests : List IngestRequest) :
    (run root requests).root = root := by
  induction requests using List.reverseRecOn with
  | nil => rfl
  | append_singleton requests request ih =>
    rw [run_append]
    rcases (run root requests).perform_cases request with same | ⟨_, _, kept, _⟩
    · rw [same, ih]
    · rw [kept, ih]

end Index

/-- What an ingest keeps of the nodes that were known before. -/
structure Extends (before after : List GraphNode) : Prop where
  ids : before.map GraphNode.key <+: after.map GraphNode.key
  definition_stays : ∀ (position : Nat) (old new : GraphNode), before[position]? = some old →
    after[position]? = some new → old.callable.isDefinition = true →
    new.callable.isDefinition = true
  declaration_stays : ∀ (position : Nat) (old new : GraphNode), before[position]? = some old →
    after[position]? = some new → old.callable.isDefinition = false →
    new.callable.isDefinition = false → new.callable = old.callable
  caller_stays : ∀ (position : Nat) (old new : GraphNode), before[position]? = some old →
    after[position]? = some new → old.callees ≠ [] → new = old

theorem Extends.refl (nodes : List GraphNode) : Extends nodes nodes where
  ids := List.prefix_rfl
  definition_stays position old new atOld atNew defined := by
    rw [atOld] at atNew
    exact Option.some.inj atNew ▸ defined
  declaration_stays position old new atOld atNew _ _ := by
    rw [atOld] at atNew
    rw [Option.some.inj atNew]
  caller_stays position old new atOld atNew _ := by
    rw [atOld] at atNew
    exact (Option.some.inj atNew).symm

theorem Extends.trans {before middle after : List GraphNode} (first : Extends before middle)
    (last : Extends middle after) : Extends before after where
  ids := first.ids.trans last.ids
  definition_stays position old new atOld atNew defined := by
    obtain ⟨between, found, _⟩ := key_kept first.ids atOld
    exact last.definition_stays position between new found atNew
      (first.definition_stays position old between atOld found defined)
  declaration_stays position old new atOld atNew declared still := by
    obtain ⟨between, found, _⟩ := key_kept first.ids atOld
    -- A definition would have stayed one, so the node in between is a declaration too.
    have undefined : between.callable.isDefinition = false := by
      by_contra defined
      have kept := last.definition_stays position between new found atNew (by simpa using defined)
      rw [still] at kept
      cases kept
    rw [last.declaration_stays position between new found atNew undefined still,
      first.declaration_stays position old between atOld found declared undefined]
  caller_stays position old new atOld atNew calls := by
    obtain ⟨between, found, _⟩ := key_kept first.ids atOld
    obtain rfl := first.caller_stays position old between atOld found calls
    exact last.caller_stays position between new found atNew calls

namespace MergedFrom

variable {root : DisplayRoot} {excluded : List Path} {facts : List Fact}
  {before : List GraphNode} {merge : Merge}

theorem isDefinition_of_fromFacts {node : GraphNode}
    (origin : node.FromFacts root excluded facts before) :
    node.callable.isDefinition = true := by
  obtain ⟨symbol, _, defined, _, record⟩ := origin.record
  rw [record]
  exact defined

theorem eq_or_fresh (merged : MergedFrom root excluded facts before merge) {position : Nat}
    {old new : GraphNode} (atOld : before[position]? = some old)
    (atNew : merge.nodes[position]? = some new) :
    new = old ∨ old.callees = [] ∧ new.FromFacts root excluded facts merge.nodes := by
  cases merged.origin position new atNew with
  | kept _ same =>
    rw [same] at atOld
    exact .inl (Option.some.inj atOld)
  | declared _ absent =>
    rw [absent] at atOld
    cases atOld
  | defined _ unfinished fresh => exact .inr ⟨unfinished old atOld, fresh⟩

theorem toExtends (merged : MergedFrom root excluded facts before merge) :
    Extends before merge.nodes where
  ids := merged.keys
  definition_stays position old new atOld atNew defined := by
    rcases merged.eq_or_fresh atOld atNew with rfl | ⟨_, fresh⟩
    · exact defined
    · exact isDefinition_of_fromFacts fresh
  declaration_stays position old new atOld atNew _ declared := by
    rcases merged.eq_or_fresh atOld atNew with rfl | ⟨_, fresh⟩
    · rfl
    · -- What these facts have made is a definition.
      have defined := isDefinition_of_fromFacts fresh
      rw [declared] at defined
      cases defined
  caller_stays position old new atOld atNew calls := by
    rcases merged.eq_or_fresh atOld atNew with same | ⟨none, _⟩
    · exact same
    · exact absurd none calls

end MergedFrom

namespace Index

/-- The node at a position has had no callees until one request, and since then it is what that
request made it from its own facts. -/
def FromOneRequest (root : DisplayRoot) (requests : List IngestRequest) (position : Nat)
    (node : GraphNode) : Prop :=
  ∃ earlier request later unit, requests = earlier ++ request :: later ∧ request.Reports unit ∧
    (∀ old, (run root earlier).nodes[position]? = some old → old.callees = []) ∧
    (run root (earlier ++ [request])).nodes[position]? = some node ∧
    node.FromFacts root request.excluded unit.facts (run root requests).nodes

theorem wellFormed_run (root : DisplayRoot) (requests : List IngestRequest) :
    WellFormed (run root requests).nodes := by
  -- Requests are performed from the left, so the induction takes the last one off.
  induction requests using List.reverseRecOn with
  | nil => exact .nil
  | append_singleton requests request ih =>
    rw [run_append]
    rcases (run root requests).perform_cases request with same | ⟨unit, _, _, nodes⟩
    · rw [same]
      exact ih
    · rw [nodes]
      exact (mergedFrom_mergeFacts ih request.excluded unit.facts).wellFormed

theorem Reachable.wellFormed {index : Index} (reachable : index.Reachable) :
    WellFormed index.nodes := by
  obtain ⟨root, requests, rfl⟩ := reachable
  exact wellFormed_run root requests

theorem extends_perform {index : Index} (wellFormed : WellFormed index.nodes)
    (request : IngestRequest) : Extends index.nodes (index.perform request).nodes := by
  rcases index.perform_cases request with same | ⟨unit, _, _, nodes⟩
  · rw [same]
    exact .refl _
  · rw [nodes]
    exact (mergedFrom_mergeFacts wellFormed request.excluded unit.facts).toExtends

/-- One more request leaves a caller with the request that it came from. -/
theorem FromOneRequest.append {root : DisplayRoot} {requests : List IngestRequest}
    {position : Nat} {node : GraphNode} (origin : FromOneRequest root requests position node)
    (request : IngestRequest) : FromOneRequest root (requests ++ [request]) position node := by
  obtain ⟨earlier, source, later, unit, rfl, reports, unfinished, made, fresh⟩ := origin
  refine ⟨earlier, source, later ++ [request], unit, by simp, reports, unfinished, made, ?_⟩
  rw [run_append]
  exact fresh.mono (extends_perform (wellFormed_run root _) request).ids

theorem fromOneRequest_run (root : DisplayRoot) (requests : List IngestRequest) (position : Nat)
    (node : GraphNode) (found : (run root requests).nodes[position]? = some node)
    (calls : node.callees ≠ []) : FromOneRequest root requests position node := by
  induction requests using List.reverseRecOn generalizing position node with
  | nil => simp [run, empty] at found
  | append_singleton requests request ih =>
    rcases (run root requests).perform_cases request with same | ⟨unit, reports, _, nodes⟩
    · -- The request has failed: the node is as old as it was.
      rw [run_append, same] at found
      exact (ih position node found calls).append request
    · have merged := mergedFrom_mergeFacts (wellFormed_run root requests) request.excluded
        unit.facts
      rw [run_append, nodes] at found
      cases merged.origin position node found with
      | kept _ old => exact (ih position node old calls).append request
      | declared _ _ none => exact absurd none calls
      | defined _ unfinished fresh =>
        -- The last request has made the node, so nothing comes after it.
        refine ⟨requests, request, [], unit, rfl, reports, unfinished, ?_, ?_⟩
        · rw [run_append, nodes]
          exact found
        · rw [root_run] at fresh
          rw [run_append, nodes]
          exact fresh

/-- After every request of every run, the graph is well formed, the request has only extended what
was known before it, and every caller comes from one request. -/
theorem ingest_run_invariants (root : DisplayRoot) (requests : List IngestRequest)
    (request : IngestRequest) :
    WellFormed ((run root requests).perform request).nodes ∧
      Extends (run root requests).nodes ((run root requests).perform request).nodes ∧
      ∀ position node, ((run root requests).perform request).nodes[position]? = some node →
        node.callees ≠ [] → FromOneRequest root (requests ++ [request]) position node := by
  refine ⟨?_, extends_perform (wellFormed_run root requests) request, ?_⟩
  · rw [← run_append]
    exact wellFormed_run root (requests ++ [request])
  · intro position node found calls
    rw [← run_append] at found
    exact fromOneRequest_run root (requests ++ [request]) position node found calls

end Index

end CallGraph
