import CallGraph.Proofs.Diagram.Drawing
import Mathlib.Data.List.Flatten

/-!
# Diagrams of a graph that grows

Main result: `drawnCalls_sublist`. While a graph grows, a diagram of the same root and the same
included callables only gains calls: those drawn before are drawn after, in the same order and from
the same senders.

A caller is final. So a walk goes on as it did before, until it comes to a callable that had no
callees, and everyone that a call on it could be sent from acts for whom it did.
-/
namespace CallGraph.Diagram

/-- What a line says of the graph if it is a call: the sender, and the callable that is called. -/
def Line.call? : Line → Option (Option String × CallableId)
  | .call sender? callee => some (sender?, callee.id)
  | .activate _ | .deactivate _ => none

/-- The calls among some lines, in order, each by its sender and by the callable called. -/
def drawnCalls (lines : List Line) : List (Option String × CallableId) :=
  lines.filterMap Line.call?

theorem drawnCalls_eq_filterMap_callLines (lines : List Line) :
    drawnCalls lines = (callLines lines).filterMap Line.call? := by
  rw [callLines, List.filterMap_filter]
  apply List.filterMap_congr
  intro line _
  cases line <;> rfl

/-- The last call of a walk, if it is drawn. -/
def endOf (index : Index) (included walk : List CallableId) :
    Option (Option String × CallableId) :=
  (walk.getLast?.filter (· ∈ included)).map fun last =>
    (nearestSender index included none walk.dropLast, last)

section WellFormed

variable {index : Index} {included : List CallableId} (wellFormed : WellFormed index.nodes)
include wellFormed

/-- Every walk from a known callable ends at a known one, so its last call has its line. -/
theorem bind_call?_callOf {root : CallableId} (known : root ∈ index.ids) {walk : List CallableId}
    (member : walk ∈ walksFrom index [] root) :
    (callOf index included none walk).bind Line.call? = endOf index included walk := by
  obtain ⟨starts, calls, _⟩ := mem_walksFrom_iff.mp member
  unfold callOf endOf
  cases drawn : walk.getLast?.filter (· ∈ included) with
  | none => rfl
  | some last =>
    obtain ⟨ends, _⟩ := Option.filter_eq_some_iff.mp drawn
    obtain ⟨callee, found⟩ := find?_getLast_of_walk wellFormed known starts calls ends
    obtain ⟨_, rfl⟩ := (Index.find?_eq_some_iff wellFormed).mp found
    simp [found, Line.call?]

theorem drawnCalls_lines {root : CallableId} (known : root ∈ index.ids) :
    drawnCalls (lines index root included) =
      (walksFrom index [] root).filterMap (endOf index included) := by
  obtain ⟨callable, found⟩ := Option.ne_none_iff_exists'.mp
    fun missing => Index.find?_eq_none_iff.mp missing known
  obtain ⟨_, rfl⟩ := (Index.find?_eq_some_iff wellFormed).mp found
  rw [drawnCalls_eq_filterMap_callLines, lines_eq_drawCall found rfl,
    callLines_drawCall wellFormed [] none callable found, List.filterMap_filterMap]
  exact List.filterMap_congr fun walk member => bind_call?_callOf wellFormed known member

end WellFormed

section Grown

variable {before after : Index} (wellFormed : WellFormed before.nodes)
  (later : WellFormed after.nodes) (grown : Extends before.nodes after.nodes)
include wellFormed later grown

/-- The walks of a grown graph are the walks from before with others in between. -/
theorem walksFrom_sublist (path : List CallableId) (id : CallableId) :
    (walksFrom before path id).Sublist (walksFrom after path id) := by
  -- Along the search in the smaller graph: where that one stops, there is nothing to show.
  induction path, id using path_induction before with
  | step path id ih =>
    rw [walksFrom_eq, walksFrom_eq]
    by_cases onPath : id ∈ path
    · simp [onPath]
    · rw [if_neg onPath, if_neg onPath]
      apply List.Sublist.cons_cons
      apply List.Sublist.map
      cases callees : before.calleeIds id with
      | nil => exact List.nil_sublist _
      | cons callee others =>
        have called : before.HasCall id callee := by
          rw [Index.HasCall, callees]
          exact List.mem_cons_self
        rw [Index.calleeIds_of_call wellFormed later grown called, ← callees]
        exact List.Sublist.flatMap_right _ fun callee called => ih onPath callee called

/-- Whoever is passed on a walk is a caller, so the nearest sender does not change. -/
theorem endOf_eq_of_walk {included walk : List CallableId} (calls : walk.IsChain before.HasCall) :
    endOf after included walk = endOf before included walk := by
  have sender : nearestSender after included none walk.dropLast =
      nearestSender before included none walk.dropLast := by
    unfold nearestSender
    cases nearest : (walk.dropLast.filter (· ∈ included)).getLast? with
    | none => rfl
    | some above =>
      have passed := List.mem_of_mem_filter (List.mem_of_getLast? nearest)
      obtain ⟨_, called⟩ := exists_call_of_mem_dropLast calls passed
      simp only [Index.find?_of_call wellFormed later grown called]
  rw [endOf, endOf, sender]

/-- A grown graph is drawn with the calls from before, in their order, and with more of them. -/
theorem drawnCalls_sublist {root : CallableId} (known : root ∈ before.ids)
    (included : List CallableId) :
    (drawnCalls (lines before root included)).Sublist
      (drawnCalls (lines after root included)) := by
  rw [drawnCalls_lines wellFormed known,
    drawnCalls_lines later (List.IsPrefix.subset grown.ids known)]
  calc
    (walksFrom before [] root).filterMap (endOf before included)
      = (walksFrom before [] root).filterMap (endOf after included) := by
        apply List.filterMap_congr
        intro walk member
        obtain ⟨_, calls, _⟩ := mem_walksFrom_iff.mp member
        exact (endOf_eq_of_walk wellFormed later grown calls).symm
    List.Sublist _ ((walksFrom after [] root).filterMap (endOf after included)) :=
        (walksFrom_sublist wellFormed later grown [] root).filterMap _

end Grown

end CallGraph.Diagram
