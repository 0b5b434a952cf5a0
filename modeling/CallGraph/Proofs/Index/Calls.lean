import CallGraph.Proofs.Index.Row
import CallGraph.Proofs.Index.Run
import Mathlib.Logic.Relation

/-!
# Calls between callables

In a well-formed graph a record is found under its own identity, the records of callees are found
as well, and no caller has the same callee twice. So calls can be told by identities alone.
-/
namespace CallGraph.Index

/-- The identities of the callables that a callable calls, in the order of discovery. -/
def calleeIds (index : Index) (id : CallableId) : List CallableId :=
  (index.calleesOf id).map Callable.id

def HasCall (index : Index) (caller callee : CallableId) : Prop := callee ∈ index.calleeIds caller

/-- A chain of calls, which may be empty, leads from one callable to another. -/
def Reaches (index : Index) : CallableId → CallableId → Prop :=
  Relation.ReflTransGen index.HasCall

variable {index : Index}

theorem mem_calleesOf_iff {id : CallableId} {callee : Callable} :
    callee ∈ index.calleesOf id ↔
      ∃ node position target, index.node? id = some node ∧ position ∈ node.callees ∧
        index.nodes[position]? = some target ∧ target.callable = callee := by
  unfold calleesOf
  cases found : index.node? id with
  | none => simp
  | some node => simp [callableAt?, List.mem_filterMap]

theorem caller_known {caller callee : CallableId} (called : index.HasCall caller callee) :
    caller ∈ index.ids := by
  obtain ⟨record, member, rfl⟩ := List.mem_map.mp called
  obtain ⟨node, _, _, found, _⟩ := mem_calleesOf_iff.mp member
  obtain ⟨known, rfl⟩ := mem_nodes_of_node? found
  exact List.mem_map_of_mem known

theorem find?_eq_none_iff {id : CallableId} : index.find? id = none ↔ id ∉ index.ids := by
  rw [find?, node?, Option.map_eq_none_iff, Option.map_eq_none_iff, locate?_eq_none_iff, ids]

section WellFormed

variable (wellFormed : WellFormed index.nodes)
include wellFormed

theorem find?_eq_some_iff {id : CallableId} {callable : Callable} :
    index.find? id = some callable ↔ callable ∈ index.callables ∧ callable.id = id := by
  constructor
  · intro found
    obtain ⟨node, atNode, rfl⟩ := Option.map_eq_some_iff.mp found
    obtain ⟨member, rfl⟩ := mem_nodes_of_node? atNode
    exact ⟨List.mem_map_of_mem member, (wellFormed.fits node member).key_eq.symm⟩
  · rintro ⟨member, rfl⟩
    obtain ⟨node, known, rfl⟩ := List.mem_map.mp member
    obtain ⟨position, atPosition⟩ := List.getElem?_of_mem known
    -- The node fits, so the key that the look-up compares is the identity of the record.
    have located := wellFormed.locate?_eq_some_iff.mpr
      ⟨atPosition, (wellFormed.fits node known).key_eq⟩
    rw [find?, node?, located]
    rfl

theorem find?_callee {id : CallableId} {callee : Callable}
    (called : callee ∈ index.calleesOf id) : index.find? callee.id = some callee :=
  (find?_eq_some_iff wellFormed).mpr ⟨mem_callables_of_mem_calleesOf called, rfl⟩

theorem callables_eq_filterMap : index.callables = index.ids.filterMap index.find? := by
  rw [ids, List.filterMap_map, callables, ← List.filterMap_eq_map]
  apply List.filterMap_congr
  intro node member
  have record : node.callable ∈ index.callables := List.mem_map_of_mem member
  have same := (wellFormed.fits node member).key_eq.symm
  exact ((find?_eq_some_iff wellFormed).mpr ⟨record, same⟩).symm

theorem calleesOf_eq_filterMap (id : CallableId) :
    index.calleesOf id = (index.calleeIds id).filterMap index.find? := by
  rw [calleeIds, List.filterMap_map]
  refine (List.filterMap_some.symm.trans (List.filterMap_congr ?_))
  exact fun callee called => (find?_callee wellFormed called).symm

theorem callee_known {caller callee : CallableId} (called : index.HasCall caller callee) :
    callee ∈ index.ids := by
  obtain ⟨record, member, rfl⟩ := List.mem_map.mp called
  exact mem_ids_of_find? (find?_callee wellFormed member)

theorem known_of_reaches {entry id : CallableId} (known : entry ∈ index.ids)
    (reaches : index.Reaches entry id) : id ∈ index.ids := by
  rcases Relation.ReflTransGen.cases_tail reaches with rfl | ⟨_, _, called⟩
  · exact known
  · exact callee_known wellFormed called

theorem nodup_calleeIds (id : CallableId) : (index.calleeIds id).Nodup := by
  unfold calleeIds calleesOf
  cases found : index.node? id with
  | none => exact List.nodup_nil
  | some node =>
    have fits := wellFormed.fits node (mem_nodes_of_node? found).1
    rw [List.Nodup, List.pairwise_map, List.pairwise_filterMap]
    apply fits.callees_distinct.imp
    -- Distinct positions hold distinct keys, and a record carries the key of its node.
    intro left right distinct first atLeft second atRight same
    obtain ⟨caller, callerAt, rfl⟩ := Option.map_eq_some_iff.mp atLeft
    obtain ⟨callee, calleeAt, rfl⟩ := Option.map_eq_some_iff.mp atRight
    have leftKey := (wellFormed.fits caller (List.mem_of_getElem? callerAt)).key_eq
    have rightKey := (wellFormed.fits callee (List.mem_of_getElem? calleeAt)).key_eq
    apply distinct
    apply wellFormed.position_unique callerAt calleeAt
    rw [leftKey, rightKey, same]

/-- The identities of the callees are what the row of a caller holds. -/
theorem calleeIds_eq_row? (id : CallableId) :
    index.calleeIds id = ((row? index.nodes id).map GraphRow.callees).getD [] := by
  unfold calleeIds calleesOf node? row?
  cases located : locate? index.nodes id with
  | none => rfl
  | some entry =>
    obtain ⟨node, position⟩ := entry
    simp only [Option.map_some, Option.getD_some, GraphNode.row, List.map_filterMap]
    apply List.filterMap_congr
    intro target _
    rw [callableAt?, keyAt?, List.getElem?_map]
    cases found : index.nodes[target]? with
    | none => rfl
    | some callee =>
      simp [(wellFormed.fits callee (List.mem_of_getElem? found)).key_eq]

end WellFormed

/-! ### Callers in a graph that grows -/

section Grown

variable {before after : Index} (wellFormed : WellFormed before.nodes)
  (later : WellFormed after.nodes) (grown : Extends before.nodes after.nodes)
include wellFormed later grown

/-- A caller is final, so what is known of it stays. -/
theorem row?_of_call {caller callee : CallableId} (called : before.HasCall caller callee) :
    row? after.nodes caller = row? before.nodes caller := by
  obtain ⟨node, known, rfl⟩ := List.mem_map.mp (caller_known called)
  obtain ⟨position, found⟩ := List.getElem?_of_mem known
  have row := wellFormed.row?_of_getElem? found
  have calls : node.callees ≠ [] := by
    rw [ne_eq, ← wellFormed.row_callees_eq_nil_iff known]
    rw [HasCall, calleeIds_eq_row? wellFormed, row] at called
    exact List.ne_nil_of_mem called
  obtain ⟨new, kept, _⟩ := key_kept grown.ids found
  obtain rfl := grown.caller_stays position node new found kept calls
  rw [row, later.row?_of_getElem? kept,
    GraphNode.row_eq_of_prefix (wellFormed.fits new known) grown.ids]

theorem calleeIds_of_call {caller callee : CallableId} (called : before.HasCall caller callee) :
    after.calleeIds caller = before.calleeIds caller := by
  rw [calleeIds_eq_row? wellFormed, calleeIds_eq_row? later,
    row?_of_call wellFormed later grown called]

theorem find?_of_call {caller callee : CallableId} (called : before.HasCall caller callee) :
    after.find? caller = before.find? caller := by
  rw [find?_eq_row?, find?_eq_row?, row?_of_call wellFormed later grown called]

end Grown

end CallGraph.Index
