import CallGraph.Index.Basic

/-!
# Well-formed graphs

The nodes of a graph stand in the order of discovery, and callees are positions in that order.
A graph is well formed if no two nodes share a key and every node fits the others. Appending a
node under a new key and changing a node in place keep a graph well formed, and in a well-formed
graph a look-up by key and a look-up by position agree.
-/
namespace CallGraph

/-- A node fits into a graph of `size` nodes. -/
structure GraphNode.Fits (size : Nat) (node : GraphNode) : Prop where
  key_eq : node.key = node.callable.id
  callees_known : ∀ position ∈ node.callees, position < size
  callees_distinct : node.callees.Nodup
  caller_defined : node.callees ≠ [] → node.callable.isDefinition = true

/-- The nodes of a graph at any time. -/
structure WellFormed (nodes : List GraphNode) : Prop where
  keys_distinct : (nodes.map GraphNode.key).Nodup
  fits : ∀ node ∈ nodes, node.Fits nodes.length

namespace GraphNode.Fits

variable {size : Nat} {node : GraphNode}

theorem mono {larger : Nat} (fits : node.Fits size) (le : size ≤ larger) : node.Fits larger where
  key_eq := fits.key_eq
  callees_known position member := Nat.lt_of_lt_of_le (fits.callees_known position member) le
  callees_distinct := fits.callees_distinct
  caller_defined := fits.caller_defined

/-- A record that nothing was called from yet. -/
theorem of_record (callable : Callable) : Fits size ⟨callable.id, callable, []⟩ where
  key_eq := rfl
  callees_known := by simp
  callees_distinct := List.nodup_nil
  caller_defined := by simp

theorem withRecord {callable : Callable} (same : node.key = callable.id)
    (empty : node.callees = []) : (node.withRecord callable).Fits size where
  key_eq := same
  callees_known := by simp [empty]
  callees_distinct := by simp [empty]
  caller_defined := by simp [empty]

theorem withCallee {target : Nat} (fits : node.Fits size) (known : target < size)
    (new : target ∉ node.callees) (defined : node.callable.isDefinition = true) :
    (node.withCallee target).Fits size where
  key_eq := fits.key_eq
  callees_known := by
    intro position member
    rcases List.mem_append.mp member with old | last
    · exact fits.callees_known position old
    · rw [List.mem_singleton.mp last]
      exact known
  callees_distinct := by
    rw [withCallee_callees, List.nodup_append]
    refine ⟨fits.callees_distinct, by simp, ?_⟩
    intro position old other last
    rw [List.mem_singleton.mp last]
    exact fun same => new (same ▸ old)
  caller_defined _ := defined

end GraphNode.Fits

/-! ### Nodes and keys under the two ways in which a graph changes -/

theorem getElem?_append_singleton {α : Type} {xs : List α} {x y : α} {position : Nat} :
    (xs ++ [x])[position]? = some y ↔
      xs[position]? = some y ∨ position = xs.length ∧ x = y := by
  rcases Nat.lt_trichotomy position xs.length with low | rfl | high
  · rw [List.getElem?_append_left low]
    simp [Nat.ne_of_lt low]
  · simp
  · rw [List.getElem?_append_right (Nat.le_of_lt high), List.getElem?_eq_none (Nat.le_of_lt high),
      List.getElem?_eq_none (by simp; omega)]
    simp [Nat.ne_of_gt high]

theorem getElem?_modify_eq_some {α : Type} {xs : List α} {change : α → α} {position other : Nat}
    {x y : α} (found : xs[position]? = some x) :
    (xs.modify position change)[other]? = some y ↔
      (other = position ∧ y = change x) ∨ (other ≠ position ∧ xs[other]? = some y) := by
  by_cases same : other = position
  · subst same
    simp [found, eq_comm]
  · rw [List.getElem?_modify_ne _ _ (Ne.symm same)]
    simp [same]

theorem key_mem_of_getElem? {nodes : List GraphNode} {position : Nat} {node : GraphNode}
    (found : nodes[position]? = some node) : node.key ∈ nodes.map GraphNode.key :=
  List.mem_map_of_mem (List.mem_of_getElem? found)

theorem map_key_modify {nodes : List GraphNode} {change : GraphNode → GraphNode} {position : Nat}
    (same : ∀ node, (change node).key = node.key) :
    (nodes.modify position change).map GraphNode.key = nodes.map GraphNode.key := by
  apply List.ext_getElem?
  intro other
  rw [List.getElem?_map, List.getElem?_map, List.getElem?_modify]
  cases nodes[other]? with
  | none => rfl
  | some node =>
    by_cases here : position = other
    · simp [here, same]
    · simp [here]

namespace WellFormed

variable {nodes : List GraphNode}

theorem nil : WellFormed [] where
  keys_distinct := List.nodup_nil
  fits := by simp

theorem append_record (wellFormed : WellFormed nodes) {callable : Callable}
    (new : callable.id ∉ nodes.map GraphNode.key) :
    WellFormed (nodes ++ [⟨callable.id, callable, []⟩]) where
  keys_distinct := by
    rw [List.map_append, List.nodup_append]
    refine ⟨wellFormed.keys_distinct, by simp, ?_⟩
    rintro key known other last rfl
    rw [List.map_singleton, List.mem_singleton] at last
    subst last
    exact new known
  fits := by
    intro node member
    -- The graph grows, so what fitted before still does.
    rw [List.length_append]
    rcases List.mem_append.mp member with old | last
    · exact (wellFormed.fits node old).mono (Nat.le_add_right _ _)
    · rw [List.mem_singleton.mp last]
      exact .of_record callable

theorem modify (wellFormed : WellFormed nodes) {change : GraphNode → GraphNode} {position : Nat}
    {node : GraphNode} (same : ∀ node, (change node).key = node.key)
    (found : nodes[position]? = some node) (fits : (change node).Fits nodes.length) :
    WellFormed (nodes.modify position change) where
  keys_distinct := by
    rw [map_key_modify same]
    exact wellFormed.keys_distinct
  fits := by
    intro changed member
    rw [List.length_modify]
    obtain ⟨other, atOther⟩ := List.getElem?_of_mem member
    rcases (getElem?_modify_eq_some found).mp atOther with ⟨_, rfl⟩ | ⟨_, old⟩
    · exact fits
    · exact wellFormed.fits changed (List.mem_of_getElem? old)

/-- A key stands at one position only. -/
theorem position_unique (wellFormed : WellFormed nodes) {left right : Nat}
    {first second : GraphNode}
    (atLeft : nodes[left]? = some first) (atRight : nodes[right]? = some second)
    (same : first.key = second.key) : left = right := by
  have inBounds : left < (nodes.map GraphNode.key).length := by
    rw [List.length_map]
    exact (List.getElem?_eq_some_iff.mp atLeft).choose
  -- In a list without duplicates, equal elements stand at equal positions.
  apply (List.getElem?_inj inBounds wellFormed.keys_distinct).mp
  rw [List.getElem?_map, List.getElem?_map, atLeft, atRight]
  simp [same]

end WellFormed

/-! ### Keys by position -/

/-- The key at a position. -/
def keyAt? (nodes : List GraphNode) (position : Nat) : Option CallableId :=
  (nodes.map GraphNode.key)[position]?

theorem keyAt?_eq_some_iff {nodes : List GraphNode} {position : Nat} {id : CallableId} :
    keyAt? nodes position = some id ↔ ∃ node, nodes[position]? = some node ∧ node.key = id := by
  rw [keyAt?, List.getElem?_map, Option.map_eq_some_iff]

/-- Keys keep their positions when new ones come after them. -/
theorem keyAt?_of_prefix {before after : List GraphNode}
    (keys : before.map GraphNode.key <+: after.map GraphNode.key) {position : Nat}
    (known : position < before.length) : keyAt? after position = keyAt? before position := by
  obtain ⟨rest, split⟩ := keys
  rw [keyAt?, keyAt?, ← split, List.getElem?_append_left (by simpa using known)]

theorem key_kept {before after : List GraphNode}
    (keys : before.map GraphNode.key <+: after.map GraphNode.key) {position : Nat}
    {node : GraphNode} (found : before[position]? = some node) :
    ∃ later, after[position]? = some later ∧ later.key = node.key := by
  have known : position < before.length := (List.getElem?_eq_some_iff.mp found).choose
  rw [← keyAt?_eq_some_iff, keyAt?_of_prefix keys known]
  exact keyAt?_eq_some_iff.mpr ⟨node, found, rfl⟩

/-! ### Look-up -/

theorem getElem?_of_locate? {nodes : List GraphNode} {id : CallableId} {node : GraphNode}
    {position : Nat} (found : locate? nodes id = some (node, position)) :
    nodes[position]? = some node ∧ node.key = id := by
  have sameKey := List.find?_some found
  have member := List.mem_of_find?_eq_some found
  exact ⟨List.mk_mem_zipIdx_iff_getElem?.mp member, by simpa using sameKey⟩

theorem locate?_eq_none_iff {nodes : List GraphNode} {id : CallableId} :
    locate? nodes id = none ↔ id ∉ nodes.map GraphNode.key := by
  rw [locate?, List.find?_eq_none]
  -- The look-up searches pairs with positions, so each direction crosses `zipIdx` once.
  constructor
  · intro missing known
    obtain ⟨node, member, sameKey⟩ := List.mem_map.mp known
    obtain ⟨position, atPosition⟩ := List.getElem?_of_mem member
    exact missing (node, position) (List.mk_mem_zipIdx_iff_getElem?.mpr atPosition) (by simpa)
  · intro unknown entry member sameKey
    have known : entry.1.key ∈ nodes.map GraphNode.key :=
      List.mem_map_of_mem (List.fst_mem_of_mem_zipIdx member)
    exact unknown ((beq_iff_eq.mp sameKey) ▸ known)

theorem WellFormed.locate?_eq_some_iff {nodes : List GraphNode} (wellFormed : WellFormed nodes)
    {id : CallableId} {node : GraphNode} {position : Nat} :
    locate? nodes id = some (node, position) ↔ nodes[position]? = some node ∧ node.key = id := by
  constructor
  · exact getElem?_of_locate?
  · -- Some node is found under this key, and it can only be the one at this position.
    rintro ⟨atPosition, sameKey⟩
    cases located : locate? nodes id with
    | none =>
      have known : node.key ∈ nodes.map GraphNode.key :=
        List.mem_map_of_mem (List.mem_of_getElem? atPosition)
      exact absurd (sameKey ▸ known) (locate?_eq_none_iff.mp located)
    | some entry =>
      obtain ⟨other, place⟩ := entry
      obtain ⟨atPlace, otherKey⟩ := getElem?_of_locate? located
      have same := wellFormed.position_unique atPlace atPosition (otherKey.trans sameKey.symm)
      subst same
      rw [atPlace] at atPosition
      rw [Option.some.inj atPosition]

end CallGraph
