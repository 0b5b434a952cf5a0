import CallGraph.Proofs.Index.Merge
import Mathlib.Data.List.Basic

/-!
# Rows

A row is what a graph says of one callable by name: its record and the keys of its callees. Rows
hide positions. Merging an observation changes the row of the observed callable alone, and merging
a call the row of its caller alone (`row?_addCallable`, `row?_addCall`).
-/
namespace CallGraph

/-- What is known of a callable. -/
structure GraphRow where
  callable : Callable
  callees : List CallableId
deriving DecidableEq, Repr, Inhabited

/-- A node with the keys of its callees in place of their positions. -/
def GraphNode.row (nodes : List GraphNode) (node : GraphNode) : GraphRow :=
  ⟨node.callable, node.callees.filterMap (keyAt? nodes)⟩

/-- What the nodes of a graph say of a callable. -/
def row? (nodes : List GraphNode) (id : CallableId) : Option GraphRow :=
  (locate? nodes id).map fun entry => entry.1.row nodes

/-- A list with an element at the end, unless it is there. -/
def pushNew {α : Type} [DecidableEq α] (xs : List α) (x : α) : List α :=
  if x ∈ xs then xs else xs ++ [x]

theorem foldl_pushNew {α : Type} [DecidableEq α] (xs ys : List α) :
    ys.foldl pushNew xs = xs ++ (ys.filter (· ∉ xs)).eraseDups := by
  induction ys generalizing xs with
  | nil => simp
  | cons y ys ih =>
    rw [List.foldl_cons, ih]
    by_cases known : y ∈ xs
    · simp [pushNew, known]
    · -- `eraseDups` keeps the first `y` and takes all later ones out of the rest.
      have later : (ys.filter (· ∉ xs)).filter (fun z => !z == y) =
          ys.filter (· ∉ xs ++ [y]) := by
        rw [List.filter_filter]
        apply List.filter_congr
        intro z _
        by_cases here : z = y <;> by_cases old : z ∈ xs <;> simp [here, old]
      rw [pushNew, if_neg known, List.filter_cons_of_pos (by simpa using known),
        List.eraseDups_cons, later, List.append_assoc, List.singleton_append]

theorem foldl_pushNew_filter {α : Type} [DecidableEq α] {xs : List α} {x : α} (known : x ∈ xs)
    (ys : List α) : (ys.filter fun y => !y == x).foldl pushNew xs = ys.foldl pushNew xs := by
  induction ys generalizing xs with
  | nil => rfl
  | cons y ys ih =>
    by_cases here : y = x
    · subst here
      rw [List.filter_cons_of_neg (by simp), List.foldl_cons, pushNew, if_pos known, ih known]
    · have kept : x ∈ pushNew xs y := by
        unfold pushNew
        split
        · exact known
        · exact List.mem_append_left _ known
      rw [List.filter_cons_of_pos (by simpa using here), List.foldl_cons, List.foldl_cons, ih kept]

/-- Elements that come again change nothing. -/
theorem foldl_pushNew_eraseDups {α : Type} [DecidableEq α] (xs ys : List α) :
    ys.eraseDups.foldl pushNew xs = ys.foldl pushNew xs := by
  -- `eraseDups` takes later copies out of the rest first, so the induction is on the length.
  induction size : ys.length using Nat.strongRecOn generalizing xs ys with
  | ind n ih =>
    cases ys with
    | nil => rfl
    | cons y ys =>
      have shorter : (ys.filter fun z => !z == y).length < n := by
        have := List.length_filter_le (fun z => !z == y) ys
        simp only [List.length_cons] at size
        omega
      have here : y ∈ pushNew xs y := by
        unfold pushNew
        split
        · assumption
        · simp
      rw [List.eraseDups_cons, List.foldl_cons, List.foldl_cons, ih _ shorter _ _ rfl,
        foldl_pushNew_filter here]

theorem foldl_pushNew_nil {α : Type} [DecidableEq α] (xs : List α) :
    xs.foldl pushNew [] = xs.eraseDups := by
  simp [foldl_pushNew]

theorem filter_foldl_pushNew {α : Type} [DecidableEq α] (p : α → Bool) (xs ys : List α) :
    (ys.foldl pushNew xs).filter p = (ys.filter p).foldl pushNew (xs.filter p) := by
  induction ys generalizing xs with
  | nil => rfl
  | cons y ys ih =>
    rw [List.foldl_cons, ih]
    by_cases kept : p y = true
    · have same : (pushNew xs y).filter p = pushNew (xs.filter p) y := by
        by_cases known : y ∈ xs
        · simp [pushNew, known, kept]
        · simp [pushNew, known, kept, List.filter_append]
      rw [List.filter_cons_of_pos kept, List.foldl_cons, same]
    · have same : (pushNew xs y).filter p = xs.filter p := by
        by_cases known : y ∈ xs
        · rw [pushNew, if_pos known]
        · simp [pushNew, known, kept, List.filter_append]
      rw [List.filter_cons_of_neg kept, same]

/-- Taking elements out and taking copies out can be done in either order. -/
theorem filter_eraseDups {α : Type} [DecidableEq α] (p : α → Bool) (xs : List α) :
    xs.eraseDups.filter p = (xs.filter p).eraseDups := by
  rw [← foldl_pushNew_nil, filter_foldl_pushNew, List.filter_nil, foldl_pushNew_nil]

/-! ### The row of a node -/

theorem GraphNode.row_eq_of_prefix {before after : List GraphNode} {node : GraphNode}
    (fits : node.Fits before.length)
    (keys : before.map GraphNode.key <+: after.map GraphNode.key) :
    node.row after = node.row before := by
  have same : node.callees.filterMap (keyAt? after) = node.callees.filterMap (keyAt? before) :=
    List.filterMap_congr fun position member =>
      keyAt?_of_prefix keys (fits.callees_known position member)
  rw [row, row, same]

/-- Keys in a row stand for positions one to one. -/
theorem WellFormed.mem_row_iff {nodes : List GraphNode} (wellFormed : WellFormed nodes)
    {node other : GraphNode} {target : Nat} (known : nodes[target]? = some other) :
    other.key ∈ (node.row nodes).callees ↔ target ∈ node.callees := by
  rw [GraphNode.row, List.mem_filterMap]
  constructor
  · rintro ⟨position, member, named⟩
    obtain ⟨found, atPosition, same⟩ := keyAt?_eq_some_iff.mp named
    exact wellFormed.position_unique atPosition known same ▸ member
  · intro member
    exact ⟨target, member, keyAt?_eq_some_iff.mpr ⟨other, known, rfl⟩⟩

theorem WellFormed.row_callees_eq_nil_iff {nodes : List GraphNode} (wellFormed : WellFormed nodes)
    {node : GraphNode} (member : node ∈ nodes) :
    (node.row nodes).callees = [] ↔ node.callees = [] := by
  constructor
  · intro empty
    cases callees : node.callees with
    | nil => rfl
    | cons target rest =>
      have known : target < nodes.length :=
        (wellFormed.fits node member).callees_known target (by simp [callees])
      have listed : nodes[target].key ∈ (node.row nodes).callees :=
        (wellFormed.mem_row_iff (List.getElem?_eq_getElem known)).mpr (by simp [callees])
      simp [empty] at listed
  · intro empty
    simp [GraphNode.row, empty]

theorem row?_eq_none_iff {nodes : List GraphNode} {id : CallableId} :
    row? nodes id = none ↔ id ∉ nodes.map GraphNode.key := by
  rw [row?, Option.map_eq_none_iff, locate?_eq_none_iff]

theorem getElem?_of_row? {nodes : List GraphNode} {id : CallableId} {row : GraphRow}
    (found : row? nodes id = some row) :
    ∃ (position : Nat) (node : GraphNode), nodes[position]? = some node ∧ node.key = id ∧
      node.row nodes = row := by
  obtain ⟨⟨node, position⟩, located, rfl⟩ := Option.map_eq_some_iff.mp found
  obtain ⟨atPosition, named⟩ := getElem?_of_locate? located
  exact ⟨position, node, atPosition, named, rfl⟩

theorem Index.find?_eq_row? (index : Index) (id : CallableId) :
    index.find? id = (row? index.nodes id).map GraphRow.callable := by
  rw [find?, node?, row?, Option.map_map, Option.map_map]
  rfl

theorem WellFormed.row?_of_getElem? {nodes : List GraphNode} (wellFormed : WellFormed nodes)
    {position : Nat} {node : GraphNode} (found : nodes[position]? = some node) :
    row? nodes node.key = some (node.row nodes) := by
  rw [row?, wellFormed.locate?_eq_some_iff.mpr ⟨found, rfl⟩, Option.map_some]

/-- A callable whose node stays in place keeps its row. -/
theorem row?_eq_of_prefix {before after : List GraphNode} (wellFormed : WellFormed before)
    (later : WellFormed after) (keys : before.map GraphNode.key <+: after.map GraphNode.key)
    {id : CallableId} (known : id ∈ after.map GraphNode.key → id ∈ before.map GraphNode.key)
    (same : ∀ (position : Nat) (node : GraphNode), before[position]? = some node →
      node.key = id → after[position]? = some node) :
    row? after id = row? before id := by
  by_cases member : id ∈ before.map GraphNode.key
  · -- The callees of an old node are old positions, and those keep their keys.
    obtain ⟨node, inBefore, rfl⟩ := List.mem_map.mp member
    obtain ⟨position, found⟩ := List.getElem?_of_mem inBefore
    rw [wellFormed.row?_of_getElem? found, later.row?_of_getElem? (same position node found rfl),
      GraphNode.row_eq_of_prefix (wellFormed.fits node inBefore) keys]
  · rw [row?_eq_none_iff.mpr member, row?_eq_none_iff.mpr fun now => member (known now)]

/-! ### Counting callees -/

@[simp] theorem edgeCount_append_record (nodes : List GraphNode) (callable : Callable) :
    edgeCount (nodes ++ [⟨callable.id, callable, []⟩]) = edgeCount nodes := by
  simp [edgeCount]

@[simp] theorem edgeCount_withRecord (nodes : List GraphNode) (position : Nat)
    (callable : Callable) :
    edgeCount (nodes.modify position (·.withRecord callable)) = edgeCount nodes := by
  induction nodes generalizing position with
  | nil => simp
  | cons node nodes ih =>
    cases position with
    | zero => simp [edgeCount]
    | succ position => simpa [edgeCount] using ih position

theorem edgeCount_withCallee {nodes : List GraphNode} {position : Nat} {node : GraphNode}
    (found : nodes[position]? = some node) (target : Nat) :
    edgeCount (nodes.modify position (·.withCallee target)) = edgeCount nodes + 1 := by
  induction nodes generalizing position with
  | nil => simp at found
  | cons first nodes ih =>
    cases position with
    | zero =>
      simp only [edgeCount, List.modify_zero_cons, List.foldr_cons,
        GraphNode.withCallee_callees, List.length_append, List.length_singleton]
      omega
    | succ position =>
      have later := ih (by simpa using found)
      simp only [edgeCount, List.modify_succ_cons, List.foldr_cons] at later ⊢
      omega

/-! ### What the steps of a merge do to rows -/

namespace Merge

variable {merge : Merge}

theorem row?_discover (wellFormed : WellFormed merge.nodes) {callable : Callable}
    (new : callable.id ∉ merge.nodes.map GraphNode.key) (id : CallableId) :
    row? (merge.discover callable).nodes id =
      if id = callable.id then some ⟨callable, []⟩ else row? merge.nodes id := by
  have later : WellFormed (merge.discover callable).nodes := wellFormed.append_record new
  split
  · rename_i here
    have last : (merge.discover callable).nodes[merge.nodes.length]? =
        some ⟨callable.id, callable, []⟩ := by simp [discover]
    rw [here]
    exact later.row?_of_getElem? last
  · rename_i elsewhere
    apply row?_eq_of_prefix wellFormed later
    · rw [keys_discover]
      exact List.prefix_append _ _
    · intro now
      rw [keys_discover, List.mem_append, List.mem_singleton] at now
      exact now.resolve_right elsewhere
    · intro position node found _
      exact getElem?_append_singleton.mpr (.inl found)

/-- Changing a node in place changes its row alone. -/
theorem row?_modify {nodes : List GraphNode} {change : GraphNode → GraphNode} {position : Nat}
    {node : GraphNode} (wellFormed : WellFormed nodes)
    (later : WellFormed (nodes.modify position change))
    (same : ∀ node, (change node).key = node.key) (found : nodes[position]? = some node)
    (id : CallableId) :
    row? (nodes.modify position change) id =
      if id = node.key then some ((change node).row nodes) else row? nodes id := by
  have keys : (nodes.modify position change).map GraphNode.key = nodes.map GraphNode.key :=
    map_key_modify same
  have changed : (nodes.modify position change)[position]? = some (change node) :=
    (getElem?_modify_eq_some found).mpr (.inl ⟨rfl, rfl⟩)
  split
  · rename_i here
    have row : (change node).row (nodes.modify position change) = (change node).row nodes := by
      unfold GraphNode.row keyAt?
      rw [keys]
    rw [here, ← same node, later.row?_of_getElem? changed, row]
  · rename_i elsewhere
    apply row?_eq_of_prefix wellFormed later
    · simp only [keys, List.prefix_rfl]
    · intro now
      rwa [keys] at now
    · -- A key that differs from the changed one stands at another position.
      intro other kept atOther named
      refine (getElem?_modify_eq_some found).mpr (.inr ⟨?_, atOther⟩)
      rintro rfl
      rw [found] at atOther
      exact elsewhere (Option.some.inj atOther ▸ named).symm

theorem row?_redefine (wellFormed : WellFormed merge.nodes) {callable : Callable}
    {node : GraphNode} {position : Nat} (found : merge.nodes[position]? = some node)
    (same : node.key = callable.id) (empty : node.callees = []) (id : CallableId) :
    row? (merge.redefine node position callable).nodes id =
      if id = callable.id then some ⟨callable, []⟩ else row? merge.nodes id := by
  have later : WellFormed (merge.redefine node position callable).nodes :=
    wellFormed.modify (fun _ => rfl) found (.withRecord same empty)
  have row : (node.withRecord callable).row merge.nodes = ⟨callable, []⟩ := by
    simp [GraphNode.row, empty]
  rw [← same, ← row]
  exact row?_modify wellFormed later (fun _ => rfl) found id

theorem row?_link (wellFormed : WellFormed merge.nodes) {node other : GraphNode}
    {position target : Nat} (found : merge.nodes[position]? = some node)
    (known : merge.nodes[target]? = some other)
    (later : WellFormed (merge.link position target).nodes) (id : CallableId) :
    row? (merge.link position target).nodes id =
      if id = node.key then
        some ⟨node.callable, (node.row merge.nodes).callees ++ [other.key]⟩
      else row? merge.nodes id := by
  have named : keyAt? merge.nodes target = some other.key :=
    keyAt?_eq_some_iff.mpr ⟨other, known, rfl⟩
  have row : (node.withCallee target).row merge.nodes =
      ⟨node.callable, (node.row merge.nodes).callees ++ [other.key]⟩ := by
    simp [GraphNode.row, named]
  rw [← row]
  exact row?_modify wellFormed later (fun _ => rfl) found id

/-- What an observation makes of the row of its callable. -/
def observe (known? : Option GraphRow) (callable : Callable) : Option GraphRow :=
  match known? with
  | none => some ⟨callable, []⟩
  | some row => if callable.isDefinition ∧ row.callees = [] then some ⟨callable, []⟩ else some row

/-- Whether calls of a callable count. -/
def opens (merge : Merge) (id : CallableId) : Bool :=
  merge.opened.any fun position => keyAt? merge.nodes position == some id

theorem opens_iff {id : CallableId} :
    merge.opens id = true ↔ ∃ position ∈ merge.opened, keyAt? merge.nodes position = some id := by
  simp [opens]

theorem keys_addCallable (callable : Callable) :
    (merge.addCallable callable).nodes.map GraphNode.key =
      pushNew (merge.nodes.map GraphNode.key) callable.id := by
  have change := merge.addCallable_change callable
  generalize merge.addCallable callable = after at change ⊢
  cases change with
  | discover new => rw [keys_discover, pushNew, if_neg new]
  | redefine found same =>
    rw [keys_redefine, pushNew, if_pos (same ▸ key_mem_of_getElem? found)]
  | keep found same => rw [pushNew, if_pos (same ▸ key_mem_of_getElem? found)]

theorem row?_addCallable (wellFormed : WellFormed merge.nodes) (callable : Callable)
    (id : CallableId) :
    row? (merge.addCallable callable).nodes id =
      if id = callable.id then observe (row? merge.nodes id) callable
      else row? merge.nodes id := by
  have change := merge.addCallable_change callable
  generalize merge.addCallable callable = after at change ⊢
  cases change with
  | discover new =>
    rw [row?_discover wellFormed new]
    split
    · rename_i here
      rw [here, row?_eq_none_iff.mpr new]
      rfl
    · rfl
  | redefine found same defined empty =>
    rw [row?_redefine wellFormed found same empty]
    split
    · rename_i here
      have bare := (wellFormed.row_callees_eq_nil_iff (List.mem_of_getElem? found)).mpr empty
      rw [here, ← same, wellFormed.row?_of_getElem? found, observe, if_pos ⟨defined, bare⟩]
    · rfl
  | keep found same final =>
    split
    · rename_i here
      rw [← wellFormed.row_callees_eq_nil_iff (List.mem_of_getElem? found)] at final
      rw [here, ← same, wellFormed.row?_of_getElem? found, observe, if_neg final]
    · rfl

theorem opens_discover (inBounds : ∀ position ∈ merge.opened, position < merge.nodes.length)
    (callable : Callable) (id : CallableId) :
    (merge.discover callable).opens id = true ↔
      merge.opens id = true ∨ id = callable.id ∧ callable.isDefinition = true := by
  have kept : ∀ position ∈ merge.opened,
      keyAt? (merge.discover callable).nodes position = keyAt? merge.nodes position := by
    intro position opened
    apply keyAt?_of_prefix _ (inBounds position opened)
    rw [keys_discover]
    exact List.prefix_append _ _
  have last : keyAt? (merge.discover callable).nodes merge.nodes.length = some callable.id := by
    simp [keyAt?, discover]
  have before : (∃ position ∈ merge.opened,
      keyAt? (merge.discover callable).nodes position = some id) ↔ merge.opens id = true := by
    rw [opens_iff]
    exact exists_congr fun position => and_congr_right fun opened => by rw [kept position opened]
  rw [opens_iff, ← before]
  -- Old positions open what they did before. The new one is open only for a definition.
  by_cases defined : callable.isDefinition = true
  · have opened : (merge.discover callable).opened = merge.nodes.length :: merge.opened := by
      simp [discover, defined]
    simp only [opened, List.mem_cons, exists_eq_or_imp, last, Option.some.injEq, defined, and_true]
    rw [or_comm, eq_comm]
  · have opened : (merge.discover callable).opened = merge.opened := by
      simp [discover, defined]
    simp only [opened, defined, Bool.false_eq_true, and_false, or_false]

theorem opens_redefine {node : GraphNode} {position : Nat}
    (found : merge.nodes[position]? = some node) (callable : Callable) (id : CallableId) :
    (merge.redefine node position callable).opens id = true ↔
      merge.opens id = true ∨ id = node.key := by
  have keys : ∀ place, keyAt? (merge.redefine node position callable).nodes place =
      keyAt? merge.nodes place := by
    intro place
    rw [keyAt?, keys_redefine, keyAt?]
  have named : keyAt? merge.nodes position = some node.key :=
    keyAt?_eq_some_iff.mpr ⟨node, found, rfl⟩
  have opened : (merge.redefine node position callable).opened = position :: merge.opened := rfl
  rw [opens_iff, opens_iff]
  simp only [keys, opened, List.mem_cons, exists_eq_or_imp, named, Option.some.injEq]
  rw [or_comm, eq_comm]

/-- A definition opens its callable unless the callable has callees. -/
theorem opens_addCallable (wellFormed : WellFormed merge.nodes)
    (inBounds : ∀ position ∈ merge.opened, position < merge.nodes.length) (callable : Callable)
    (id : CallableId) :
    (merge.addCallable callable).opens id = true ↔ merge.opens id = true ∨
      (id = callable.id ∧ callable.isDefinition = true ∧
        ∀ row, row? merge.nodes id = some row → row.callees = []) := by
  have unfinished {node : GraphNode} {position : Nat} (found : merge.nodes[position]? = some node)
      (same : node.key = callable.id) :
      (∀ row, row? merge.nodes callable.id = some row → row.callees = []) ↔ node.callees = [] := by
    rw [← same, wellFormed.row?_of_getElem? found,
      ← wellFormed.row_callees_eq_nil_iff (List.mem_of_getElem? found)]
    simp
  have change := merge.addCallable_change callable
  generalize merge.addCallable callable = after at change ⊢
  cases change with
  | discover new =>
    rw [opens_discover inBounds]
    refine or_congr_right (and_congr_right fun here => (and_iff_left ?_).symm)
    intro row found
    rw [here, row?_eq_none_iff.mpr new] at found
    simp at found
  | redefine found same defined empty =>
    rw [opens_redefine found, same]
    refine or_congr_right ⟨?_, And.left⟩
    rintro rfl
    exact ⟨rfl, defined, (unfinished found same).mpr empty⟩
  | keep found same final =>
    refine (or_iff_left ?_).symm
    rintro ⟨rfl, defined, none⟩
    exact final ⟨defined, (unfinished found same).mp none⟩

theorem keys_addCall (caller callee : CallableId) :
    (merge.addCall caller callee).nodes.map GraphNode.key = merge.nodes.map GraphNode.key := by
  have change := merge.addCall_change caller callee
  generalize merge.addCall caller callee = after at change ⊢
  cases change with
  | link => exact keys_link ..
  | keep => rfl
  | unknown => rfl

theorem opens_addCall (caller callee id : CallableId) :
    (merge.addCall caller callee).opens id = merge.opens id := by
  have opened : (merge.addCall caller callee).opened = merge.opened := by
    have change := merge.addCall_change caller callee
    generalize merge.addCall caller callee = after at change ⊢
    cases change <;> rfl
  unfold opens keyAt?
  rw [opened, keys_addCall]

/-- A key is open if the position where it stands is. -/
theorem opens_key_iff (wellFormed : WellFormed merge.nodes) {node : GraphNode} {position : Nat}
    (found : merge.nodes[position]? = some node) :
    merge.opens node.key = true ↔ position ∈ merge.opened := by
  rw [opens_iff]
  constructor
  · rintro ⟨place, opened, named⟩
    obtain ⟨other, atPlace, key⟩ := keyAt?_eq_some_iff.mp named
    exact wellFormed.position_unique atPlace found key ▸ opened
  · intro opened
    exact ⟨position, opened, keyAt?_eq_some_iff.mpr ⟨node, found, rfl⟩⟩

/-- A call counts for the row of its caller if the caller is open and the callee known. -/
theorem row?_addCall (wellFormed : WellFormed merge.nodes) {caller callee : CallableId}
    (later : WellFormed (merge.addCall caller callee).nodes) (id : CallableId) :
    row? (merge.addCall caller callee).nodes id =
      if id = caller ∧ merge.opens caller = true ∧ callee ∈ merge.nodes.map GraphNode.key then
        (row? merge.nodes id).map fun row => ⟨row.callable, pushNew row.callees callee⟩
      else row? merge.nodes id := by
  have change := merge.addCall_change caller callee
  -- The match of `addCall` needs no unfolding here: `change` says all that it can do.
  generalize merge.addCall caller callee = after at change later ⊢
  cases change with
  | link found same known named opened new =>
    subst same named
    have unlisted := mt (wellFormed.mem_row_iff known).mp new
    have counts := (opens_key_iff wellFormed found).mpr opened
    rw [row?_link wellFormed found known later]
    split
    · rename_i here
      rw [if_pos ⟨here, counts, key_mem_of_getElem? known⟩, here,
        wellFormed.row?_of_getElem? found, Option.map_some, pushNew, if_neg unlisted]
      rfl
    · rename_i elsewhere
      rw [if_neg fun counts => elsewhere counts.1]
  | keep found same known named idle =>
    subst same named
    split
    · -- The callee is in the row already, and adding it again changes nothing.
      rename_i counts
      have old := idle ((opens_key_iff wellFormed found).mp counts.2.1)
      have listed := (wellFormed.mem_row_iff known).mpr old
      rw [counts.1, wellFormed.row?_of_getElem? found, Option.map_some, pushNew, if_pos listed]
    · rfl
  | unknown missing =>
    split
    · rename_i counts
      have absent := row?_eq_none_iff.mpr fun known => missing ⟨known, counts.2.2⟩
      rw [counts.1, absent, Option.map_none]
    · rfl

end Merge

end CallGraph
