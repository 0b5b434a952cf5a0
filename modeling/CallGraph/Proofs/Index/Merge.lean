import CallGraph.Proofs.Index.WellFormed

/-!
# Merging the facts of a unit

Main result: `mergedFrom_mergeFacts`. While the facts of a unit are merged in any order, every node
is either as it was before, or a new declaration without callees, or a definition whose record and
callees all come from these facts. What a fact can do is said once (`CallableChange`,
`CallChange`). The invariant is kept because only a definition opens a node, and a node is opened
only while it has no callees.
-/
namespace CallGraph

namespace Merge

section Keys

variable (merge : Merge) (callable : Callable) (node : GraphNode) (position target : Nat)

@[simp] theorem keys_discover : (merge.discover callable).nodes.map GraphNode.key =
    merge.nodes.map GraphNode.key ++ [callable.id] := by
  simp [discover]

@[simp] theorem keys_redefine : (merge.redefine node position callable).nodes.map GraphNode.key =
    merge.nodes.map GraphNode.key := map_key_modify fun _ => rfl

@[simp] theorem keys_link : (merge.link position target).nodes.map GraphNode.key =
    merge.nodes.map GraphNode.key := map_key_modify fun _ => rfl

end Keys

/-- Everything that merging an observation can do. -/
inductive CallableChange (merge : Merge) (callable : Callable) : Merge → Prop where
  | discover (new : callable.id ∉ merge.nodes.map GraphNode.key) :
    CallableChange merge callable (merge.discover callable)
  | redefine {node : GraphNode} {position : Nat} (found : merge.nodes[position]? = some node)
    (same : node.key = callable.id) (defined : callable.isDefinition = true)
    (empty : node.callees = []) :
    CallableChange merge callable (merge.redefine node position callable)
  | keep {node : GraphNode} {position : Nat} (found : merge.nodes[position]? = some node)
    (same : node.key = callable.id)
    (final : ¬(callable.isDefinition = true ∧ node.callees = [])) :
    CallableChange merge callable merge

/-- Everything that merging a call can do. -/
inductive CallChange (merge : Merge) (caller callee : CallableId) : Merge → Prop where
  | link {node other : GraphNode} {position target : Nat}
    (found : merge.nodes[position]? = some node) (same : node.key = caller)
    (known : merge.nodes[target]? = some other) (named : other.key = callee)
    (opened : position ∈ merge.opened) (new : target ∉ node.callees) :
    CallChange merge caller callee (merge.link position target)
  | keep {node other : GraphNode} {position target : Nat}
    (found : merge.nodes[position]? = some node) (same : node.key = caller)
    (known : merge.nodes[target]? = some other) (named : other.key = callee)
    (idle : position ∈ merge.opened → target ∈ node.callees) :
    CallChange merge caller callee merge
  | unknown (missing : ¬(caller ∈ merge.nodes.map GraphNode.key ∧
      callee ∈ merge.nodes.map GraphNode.key)) :
    CallChange merge caller callee merge

theorem addCallable_change (merge : Merge) (callable : Callable) :
    CallableChange merge callable (merge.addCallable callable) := by
  unfold addCallable
  split
  · rename_i missing
    exact .discover (locate?_eq_none_iff.mp missing)
  · rename_i node position located
    obtain ⟨found, same⟩ := getElem?_of_locate? located
    split
    · rename_i final
      refine .keep found same ?_
      rintro ⟨defined, empty⟩
      simp [defined, empty] at final
    · rename_i changes
      simp only [Bool.or_eq_true, Bool.not_eq_true', decide_eq_true_eq, not_or,
        Bool.not_eq_false, ne_eq, Decidable.not_not] at changes
      exact .redefine found same changes.1 changes.2

theorem addCall_change (merge : Merge) (caller callee : CallableId) :
    CallChange merge caller callee (merge.addCall caller callee) := by
  unfold addCall
  split
  · rename_i node position other target locatedCaller locatedCallee
    obtain ⟨found, same⟩ := getElem?_of_locate? locatedCaller
    obtain ⟨known, named⟩ := getElem?_of_locate? locatedCallee
    split
    · rename_i idle
      refine .keep found same known named fun opened => ?_
      simpa [opened] using idle
    · rename_i counts
      simp only [Bool.or_eq_true, decide_eq_true_eq, not_or, Decidable.not_not] at counts
      exact .link found same known named counts.1 counts.2
  · rename_i missing
    refine .unknown fun ⟨callerKnown, calleeKnown⟩ => ?_
    -- Both look-ups succeed, so this is not the remaining case of the match.
    obtain ⟨node, locatedCaller⟩ := Option.ne_none_iff_exists'.mp
      fun none => locate?_eq_none_iff.mp none callerKnown
    obtain ⟨other, locatedCallee⟩ := Option.ne_none_iff_exists'.mp
      fun none => locate?_eq_none_iff.mp none calleeKnown
    exact missing _ _ _ _ locatedCaller locatedCallee

end Merge

/-! ### Where the nodes of a merge come from -/

/-- A node whose record and callees come from the facts of one unit. -/
structure GraphNode.FromFacts (root : DisplayRoot) (excluded : List Path) (facts : List Fact)
    (nodes : List GraphNode) (node : GraphNode) : Prop where
  record : ∃ symbol, Fact.callable symbol ∈ facts ∧ symbol.isDefinition = true ∧
    excluded.any symbol.sourceFile.startsWith = false ∧ node.callable = symbol.toCallable root
  calls : ∀ position ∈ node.callees, ∃ other, nodes[position]? = some other ∧
    Fact.call node.key other.key ∈ facts

/-- Where the node at a position stands in a merge that started from the nodes `before`. -/
inductive Merge.Origin (root : DisplayRoot) (excluded : List Path) (facts : List Fact)
    (before : List GraphNode) (merge : Merge) (position : Nat) (node : GraphNode) : Prop where
  | kept (closed : position ∉ merge.opened) (same : before[position]? = some node)
  | declared (closed : position ∉ merge.opened) (new : before[position]? = none)
    (empty : node.callees = [])
  | defined (opened : position ∈ merge.opened)
    (unfinished : ∀ old, before[position]? = some old → old.callees = [])
    (fresh : node.FromFacts root excluded facts merge.nodes)

/-- The invariant of merging the facts of one unit. -/
structure MergedFrom (root : DisplayRoot) (excluded : List Path) (facts : List Fact)
    (before : List GraphNode) (merge : Merge) : Prop where
  wellFormed : WellFormed merge.nodes
  keys : before.map GraphNode.key <+: merge.nodes.map GraphNode.key
  opened_known : ∀ position ∈ merge.opened, position < merge.nodes.length
  origin : ∀ position node, merge.nodes[position]? = some node →
    merge.Origin root excluded facts before position node

theorem GraphNode.FromFacts.mono {root : DisplayRoot} {excluded : List Path} {facts : List Fact}
    {before after : List GraphNode} {node : GraphNode}
    (origin : node.FromFacts root excluded facts before)
    (keys : before.map GraphNode.key <+: after.map GraphNode.key) :
    node.FromFacts root excluded facts after where
  record := origin.record
  calls := by
    intro position member
    obtain ⟨other, found, called⟩ := origin.calls position member
    obtain ⟨later, kept, same⟩ := key_kept keys found
    exact ⟨later, kept, same ▸ called⟩

namespace Merge.Origin

variable {root : DisplayRoot} {excluded : List Path} {facts : List Fact}
  {before : List GraphNode} {merge after : Merge} {position : Nat} {node : GraphNode}

theorem mono (origin : merge.Origin root excluded facts before position node)
    (same : position ∈ after.opened ↔ position ∈ merge.opened)
    (keys : merge.nodes.map GraphNode.key <+: after.nodes.map GraphNode.key) :
    after.Origin root excluded facts before position node := by
  cases origin with
  | kept closed old => exact .kept (fun opened => closed (same.mp opened)) old
  | declared closed new empty => exact .declared (fun opened => closed (same.mp opened)) new empty
  | defined opened unfinished fresh => exact .defined (same.mpr opened) unfinished (fresh.mono keys)

/-- A node without callees had none before. -/
theorem unfinished_of_empty (origin : merge.Origin root excluded facts before position node)
    (empty : node.callees = []) (old : GraphNode) (found : before[position]? = some old) :
    old.callees = [] := by
  cases origin with
  | kept _ same =>
    rw [same] at found
    exact Option.some.inj found ▸ empty
  | declared _ new => simp [new] at found
  | defined _ unfinished => exact unfinished old found

end Merge.Origin

namespace MergedFrom

variable {root : DisplayRoot} {excluded : List Path} {facts : List Fact}
  {before : List GraphNode} {merge : Merge}

/-- Nodes that were there before have the positions they had. -/
theorem length_le (merged : MergedFrom root excluded facts before merge) :
    before.length ≤ merge.nodes.length := by
  simpa using merged.keys.length_le

theorem start (wellFormed : WellFormed before) :
    MergedFrom root excluded facts before (.start before) where
  wellFormed := wellFormed
  keys := List.prefix_rfl
  opened_known := by simp [Merge.start]
  origin position node found := .kept (by simp [Merge.start]) found

theorem discover (merged : MergedFrom root excluded facts before merge) {symbol : SymbolFact}
    (member : Fact.callable symbol ∈ facts)
    (kept : excluded.any symbol.sourceFile.startsWith = false)
    (new : symbol.id ∉ merge.nodes.map GraphNode.key) :
    MergedFrom root excluded facts before (merge.discover (symbol.toCallable root)) where
  wellFormed := merged.wellFormed.append_record new
  keys := by
    rw [Merge.keys_discover]
    exact merged.keys.trans (List.prefix_append _ _)
  opened_known := by
    intro position opened
    simp only [Merge.discover, List.length_append, List.length_singleton] at opened ⊢
    split at opened
    · rcases List.mem_cons.mp opened with rfl | old
      · exact Nat.lt_succ_self _
      · exact Nat.lt_succ_of_lt (merged.opened_known position old)
    · exact Nat.lt_succ_of_lt (merged.opened_known position opened)
  origin := by
    intro position node found
    rcases getElem?_append_singleton.mp found with old | ⟨rfl, rfl⟩
    · have inBounds : position < merge.nodes.length := (List.getElem?_eq_some_iff.mp old).choose
      refine (merged.origin position node old).mono ?_ ?_
      · simp only [Merge.discover]
        split
        · simp [Nat.ne_of_lt inBounds]
        · rfl
      · rw [Merge.keys_discover]
        exact List.prefix_append _ _
    · -- The new node is beyond all nodes that were there before.
      have absent : before[merge.nodes.length]? = none :=
        List.getElem?_eq_none merged.length_le
      by_cases defined : symbol.isDefinition = true
      · refine .defined (by simp [Merge.discover, defined]) (by simp [absent]) ⟨?_, by simp⟩
        exact ⟨symbol, member, defined, kept, rfl⟩
      · refine .declared ?_ absent rfl
        simp only [Merge.discover, SymbolFact.toCallable_isDefinition, defined]
        exact fun opened => Nat.lt_irrefl _ (merged.opened_known _ opened)

theorem redefine (merged : MergedFrom root excluded facts before merge) {symbol : SymbolFact}
    {node : GraphNode} {position : Nat} (member : Fact.callable symbol ∈ facts)
    (kept : excluded.any symbol.sourceFile.startsWith = false)
    (found : merge.nodes[position]? = some node) (same : node.key = symbol.id)
    (defined : symbol.isDefinition = true) (empty : node.callees = []) :
    MergedFrom root excluded facts before
      (merge.redefine node position (symbol.toCallable root)) where
  wellFormed := merged.wellFormed.modify (fun _ => rfl) found (.withRecord same empty)
  keys := by
    rw [Merge.keys_redefine]
    exact merged.keys
  opened_known := by
    intro other opened
    rw [Merge.redefine, List.length_modify]
    rcases List.mem_cons.mp opened with rfl | old
    · exact (List.getElem?_eq_some_iff.mp found).choose
    · exact merged.opened_known other old
  origin := by
    intro other changed atOther
    rcases (getElem?_modify_eq_some found).mp atOther with ⟨rfl, rfl⟩ | ⟨elsewhere, old⟩
    · refine .defined List.mem_cons_self
        ((merged.origin other node found).unfinished_of_empty empty) ⟨?_, by simp [empty]⟩
      exact ⟨symbol, member, defined, kept, rfl⟩
    · refine (merged.origin other changed old).mono ?_ ?_
      · simp [Merge.redefine, elsewhere]
      · simp only [Merge.keys_redefine, List.prefix_rfl]

/-- Only nodes that these facts define are open. -/
theorem fresh_of_opened (merged : MergedFrom root excluded facts before merge) {node : GraphNode}
    {position : Nat} (found : merge.nodes[position]? = some node)
    (opened : position ∈ merge.opened) :
    (∀ old, before[position]? = some old → old.callees = []) ∧
      node.FromFacts root excluded facts merge.nodes := by
  cases merged.origin position node found with
  | kept closed => exact absurd opened closed
  | declared closed => exact absurd opened closed
  | defined _ unfinished fresh => exact ⟨unfinished, fresh⟩

theorem link (merged : MergedFrom root excluded facts before merge) {node other : GraphNode}
    {position target : Nat} (member : Fact.call node.key other.key ∈ facts)
    (found : merge.nodes[position]? = some node) (opened : position ∈ merge.opened)
    (known : merge.nodes[target]? = some other) (new : target ∉ node.callees) :
    MergedFrom root excluded facts before (merge.link position target) := by
  have sameKeys : merge.nodes.map GraphNode.key <+:
      (merge.link position target).nodes.map GraphNode.key := by
    simp only [Merge.keys_link, List.prefix_rfl]
  obtain ⟨unfinished, fresh⟩ := merged.fresh_of_opened found opened
  obtain ⟨symbol, _, defined, _, record⟩ := fresh.record
  have fits : (node.withCallee target).Fits merge.nodes.length :=
    (merged.wellFormed.fits node (List.mem_of_getElem? found)).withCallee
      (List.getElem?_eq_some_iff.mp known).choose new (by rw [record]; exact defined)
  have extended : (node.withCallee target).FromFacts root excluded facts merge.nodes := by
    refine ⟨fresh.record, ?_⟩
    intro place called
    rcases List.mem_append.mp called with old | last
    · exact fresh.calls place old
    · rw [List.mem_singleton.mp last]
      exact ⟨other, known, member⟩
  constructor
  · exact merged.wellFormed.modify (fun _ => rfl) found fits
  · exact merged.keys.trans sameKeys
  · intro place placeOpened
    rw [Merge.link, List.length_modify]
    exact merged.opened_known place placeOpened
  · intro place changed atPlace
    rcases (getElem?_modify_eq_some found).mp atPlace with ⟨rfl, rfl⟩ | ⟨_, old⟩
    · exact .defined opened unfinished (extended.mono sameKeys)
    · exact (merged.origin place changed old).mono Iff.rfl sameKeys

/-- One fact of the unit keeps the invariant. -/
theorem step (merged : MergedFrom root excluded facts before merge) {fact : Fact}
    (member : fact ∈ facts) :
    MergedFrom root excluded facts before (merge.addFact root excluded fact) := by
  cases fact with
  | callable symbol =>
    rw [Merge.addFact]
    split
    · -- A filtered callable is counted, and the graph stays as it is.
      exact ⟨merged.wellFormed, merged.keys, merged.opened_known, fun position node found =>
        (merged.origin position node found).mono Iff.rfl List.prefix_rfl⟩
    · rename_i kept
      have kept : excluded.any symbol.sourceFile.startsWith = false := by simpa using kept
      have change := merge.addCallable_change (symbol.toCallable root)
      generalize merge.addCallable (symbol.toCallable root) = after at change ⊢
      cases change with
      | discover new => exact merged.discover member kept new
      | redefine found same defined empty =>
        exact merged.redefine member kept found same defined empty
      | keep => exact merged
  | call caller callee =>
    rw [Merge.addFact]
    have change := merge.addCall_change caller callee
    generalize merge.addCall caller callee = after at change ⊢
    cases change with
    | link found same known named opened new =>
      subst same named
      exact merged.link member found opened known new
    | keep => exact merged
    | unknown => exact merged

end MergedFrom

/-- All facts of a unit, in whatever order, keep the invariant. -/
theorem mergedFrom_mergeFacts {index : Index} (wellFormed : WellFormed index.nodes)
    (excluded : List Path) (facts : List Fact) :
    MergedFrom index.root excluded facts index.nodes (index.mergeFacts excluded facts) :=
  -- The facts are folded over all of `facts`, so each step has its fact at hand as a member.
  List.foldlRecOn facts _ (.start wellFormed) fun _ merged _ member => merged.step member

end CallGraph
