import CallGraph.Proofs.Syntax.Inside
import Mathlib.Data.List.DropRight

/-!
# The outermost faults of a tree

A fault is a node that a parser made because the text fits no rule: a token that it had to invent,
or text that it could not use. Of the faults of a tree the outermost are reported, those that lie in
no other.

Main result: `filter_visit_eq_outermostFaults`. If a parser flags whatever holds an outermost fault
(`Flagged`), a visit that turns back at each fault and leaves out what is not flagged comes to the
outermost faults and to no other fault, in document order.

Where a node begins is told by the text before it (`Position.ofOffset_eq_behind`).
-/
namespace CallGraph

namespace Node

/-- A node that a parser made because the text fits no rule. -/
def isFault (node : Node) : Bool := node.isMissing || node.isError

/-- All nodes of a tree, in document order. -/
def nodes (root : Node) : List Node := root.visit (fun _ => true) fun _ => true

/-- A fault of a tree that lies in no other fault. -/
def Outermost (root node : Node) : Prop :=
  node.Inside root ∧ node.isFault = true ∧
    ∀ above : Node, above.Inside root → node.Inside above → above.isFault = true → above = node

/-- The outermost faults of a tree in document order. Addresses tell which nodes lie in which. -/
def outermostFaults (root : Node) : List Node :=
  root.nodes.filter fun node => node.isFault && root.nodes.all fun above =>
    above.isFault && above.address.isSuffixOf node.address → above.address = node.address

/-- The parser reports an error at every outermost fault, and at all that one lies in. It does if it
reports one at and above every missing token, and unusable text that lies in no other fault. -/
def Flagged (root : Node) : Prop :=
  ∀ node, Outermost root node →
    ∀ above : Node, above.Inside root → node.Inside above → above.hasError = true

variable {root node : Node}

theorem mem_nodes_iff : node ∈ root.nodes ↔ node.Inside root := by
  simp [nodes, mem_visit_iff]

theorem mem_outermostFaults_iff : node ∈ root.outermostFaults ↔ Outermost root node := by
  simp only [outermostFaults, List.mem_filter, mem_nodes_iff, Bool.and_eq_true,
    List.all_eq_true, decide_eq_true_eq, List.isSuffixOf_iff_suffix, Outermost]
  refine and_congr_right fun inside => and_congr_right fun _ => ?_
  constructor
  · exact fun clear above higher below fault =>
      higher.eq_of_address inside (clear above higher ⟨fault, below.suffix⟩)
  · exact fun clear above higher ⟨fault, ends⟩ =>
      congrArg address (clear above higher (inside_of_suffix higher inside ends) fault)

/-- A fault lies in an outermost one. -/
theorem exists_outermost (inside : node.Inside root) (fault : node.isFault = true) :
    ∃ above, Outermost root above ∧ node.Inside above := by
  -- What a node lies in has a shorter address, unless it is the node itself.
  induction length : node.address.length using Nat.strongRecOn generalizing node with
  | ind _ ih =>
    by_cases outermost : Outermost root node
    · exact ⟨node, outermost, .refl _⟩
    · obtain ⟨above, higher, below, isFault, different⟩ : ∃ above : Node, above.Inside root ∧
          node.Inside above ∧ above.isFault = true ∧ above ≠ node := by
        simpa [Outermost, inside, fault] using outermost
      have shorter : above.address.length < node.address.length :=
        Nat.lt_of_not_le fun short => different (below.eq_of_length_le short).symm
      obtain ⟨top, isTop, deep⟩ := ih _ (length ▸ shorter) higher isFault rfl
      exact ⟨top, isTop, below.trans deep⟩

theorem outermostFaults_eq_nil_iff :
    root.outermostFaults = [] ↔ ∀ node : Node, node.Inside root → node.isFault = false := by
  rw [List.eq_nil_iff_forall_not_mem]
  constructor
  · intro none node inside
    by_contra fault
    obtain ⟨above, outermost, _⟩ := exists_outermost inside (by simpa using fault)
    exact none above (mem_outermostFaults_iff.mpr outermost)
  · intro clear node member
    obtain ⟨inside, fault, _⟩ := mem_outermostFaults_iff.mp member
    rw [clear node inside] at fault
    cases fault

theorem flagged_iff : Flagged root ↔ ∀ fault ∈ root.outermostFaults, ∀ above ∈ root.nodes,
    above.address <:+ fault.address → above.hasError = true := by
  simp only [Flagged, mem_outermostFaults_iff, mem_nodes_iff]
  refine forall_congr' fun fault => forall_congr' fun outermost => forall_congr' fun above =>
    forall_congr' fun higher => ?_
  exact ⟨fun reported ends => reported (inside_of_suffix higher outermost.1 ends),
    fun reported below => reported below.suffix⟩

instance (root : Node) : Decidable (Flagged root) := decidable_of_iff _ flagged_iff.symm

/-- Where the root is not flagged, there are no faults. -/
theorem Flagged.outermostFaults_eq_nil (flagged : Flagged root) (clean : root.hasError = false) :
    root.outermostFaults = [] := by
  rw [List.eq_nil_iff_forall_not_mem]
  intro node member
  have outermost := mem_outermostFaults_iff.mp member
  have reported := flagged node outermost root (.refl _) outermost.1
  rw [clean] at reported
  cases reported

theorem Flagged.mem_visit_iff {keep : Node → Bool} (flagged : Flagged root)
    (keeps : ∀ node : Node, node.hasError = true → keep node = true) :
    (node ∈ root.visit (fun node => !node.isFault) keep ∧ node.isFault = true) ↔
      Outermost root node := by
  rw [mem_visit_iff_between]
  constructor
  · rintro ⟨⟨inside, clear⟩, fault⟩
    refine ⟨inside, fault, fun above higher below isFault => ?_⟩
    by_contra different
    simpa [isFault] using (clear above higher below).2 different
  · intro outermost
    obtain ⟨inside, fault, clear⟩ := outermost
    refine ⟨⟨inside, fun between higher below => ⟨fun _ => ?_, fun different => ?_⟩⟩, fault⟩
    · exact keeps between (flagged node ⟨inside, fault, clear⟩ between higher below)
    · by_contra isFault
      exact different (clear between higher below (by simpa using isFault))

/-- A visit that turns back at faults and keeps all that is flagged comes to the outermost faults in
document order, and to no other fault. -/
theorem Flagged.filter_visit_eq_outermostFaults {keep : Node → Bool} (flagged : Flagged root)
    (keeps : ∀ node : Node, node.hasError = true → keep node = true) :
    (root.visit (fun node => !node.isFault) keep).filter isFault = root.outermostFaults := by
  have same (node : Node) :
      node ∈ (root.visit (fun node => !node.isFault) keep).filter isFault ↔
        node ∈ root.outermostFaults := by
    rw [List.mem_filter, flagged.mem_visit_iff keeps, mem_outermostFaults_iff]
  -- Both are sublists of all nodes, and the second has all of them that the first may have.
  have sublist : ((root.visit (fun node => !node.isFault) keep).filter isFault).Sublist
      root.outermostFaults := by
    rw [← List.filter_eq_self.mpr fun node member => (List.mem_filter.mp ((same node).mp member)).2]
    exact (List.filter_sublist.trans (visit_sublist _ keep root)).filter _
  have distinct (enter keep : Node → Bool) : (root.visit enter keep).Nodup :=
    (pairwise_visit enter keep root).imp fun different equal => different (congrArg address equal)
  exact sublist.eq_of_length ((List.perm_ext_iff_of_nodup ((distinct _ _).filter _)
    ((distinct _ _).filter _)).mpr same).length_eq

end Node

/-! ### Positions -/

namespace Position

/-- The number of bytes of a text. -/
def size : List Char → Nat
  | [] => 0
  | c :: rest => c.utf8Size + size rest

theorem size_append (before rest : List Char) :
    size (before ++ rest) = size before + size rest := by
  induction before with
  | nil => exact (Nat.zero_add _).symm
  | cons c before ih => rw [List.cons_append, size, size, ih, Nat.add_assoc]

/-- The position right behind a text: its lines, and the bytes of its last line, count from one. -/
def behind (text : List Char) : Position where
  line := text.count '\n' + 1
  column := size (text.rtakeWhile (· ≠ '\n')) + 1

theorem advance_zero (position : Position) (rest : List Char) :
    advance position rest 0 = position := by
  cases rest <;> simp [advance]

/-- The position behind a character. -/
def next (position : Position) (c : Char) : Position :=
  if c = '\n' then ⟨position.line + 1, 1⟩ else ⟨position.line, position.column + c.utf8Size⟩

theorem advance_cons (position : Position) (c : Char) (rest : List Char) (bytes : Nat) :
    advance position (c :: rest) (c.utf8Size + bytes) = advance (position.next c) rest bytes := by
  have positive := c.utf8Size_pos
  rw [advance, if_neg (by omega), next]
  split
  · rename_i newline
    have one : c.utf8Size = 1 := by rw [newline]; rfl
    rw [one, Nat.add_sub_cancel_left]
  · rw [Nat.add_sub_cancel_left]

/-- Moving on over some characters first, and then over the rest. -/
theorem advance_append (position : Position) (before rest : List Char) (bytes : Nat) :
    advance position (before ++ rest) (size before + bytes) =
      advance (before.foldl next position) rest bytes := by
  induction before generalizing position with
  | nil => simp [size]
  | cons c before ih =>
    rw [size, Nat.add_assoc, List.cons_append, advance_cons]
    exact ih (position.next c)

theorem foldl_next_eq_behind (text : List Char) : text.foldl next ⟨1, 1⟩ = behind text := by
  induction text using List.reverseRecOn with
  | nil => rfl
  | append_singleton text c ih =>
    rw [List.foldl_concat, ih]
    -- A newline ends the last line, and any other character makes it longer.
    by_cases newline : c = '\n'
    · simp [next, behind, newline, size]
    · simp [next, behind, newline, size_append, size, Nat.add_right_comm]

/-- The position that lies as many bytes into a text as its beginning has is right behind that
beginning. -/
theorem ofOffset_eq_behind {text : String} {before rest : List Char}
    (split : text.toList = before ++ rest) : ofOffset text (size before) = behind before := by
  have whole := advance_append ⟨1, 1⟩ before rest 0
  rw [advance_zero, foldl_next_eq_behind] at whole
  rwa [ofOffset, split]

end Position

end CallGraph
