import CallGraph.Syntax.Tree
import Mathlib.Data.List.Flatten
import Mathlib.Data.List.Pairwise
import Mathlib.Logic.Relation

/-!
# Which nodes lie in which

A node lies in itself and in whatever its parent lies in (`Node.Inside`). Below a common root the
address of a node tells all there is to tell: which nodes it lies in (`Node.inside_of_suffix`), and
so which node it is (`Node.Inside.eq_of_address`).

A visit reaches a node unless it turns back or leaves something out on the way there
(`Node.mem_visit_iff_between`). It keeps to the order of the whole tree (`Node.visit_sublist`), and
it reaches no place twice (`Node.pairwise_visit`).
-/
namespace CallGraph.Node

open Relation (ReflTransGen)

/-! ### Children -/

theorem mem_siblings_iff {address : List Nat} {first : Nat} {trees : List SyntaxTree}
    {node : Node} : node ∈ siblings address first trees ↔
      ∃ number, trees[number]? = some node.tree ∧ node.address = (first + number) :: address := by
  induction trees generalizing first with
  | nil => simp [siblings]
  | cons tree trees ih =>
    rw [siblings, List.mem_cons, ih]
    constructor
    · rintro (rfl | ⟨number, found, here⟩)
      · exact ⟨0, rfl, rfl⟩
      · exact ⟨number + 1, found, by rw [here, Nat.add_right_comm, Nat.add_assoc]⟩
    · rintro ⟨_ | number, found, here⟩
      · exact .inl (by cases node; cases found; cases here; rfl)
      · exact .inr ⟨number, found, by rw [here, Nat.add_right_comm, Nat.add_assoc]⟩

theorem mem_children_iff {node child : Node} : child ∈ node.children ↔
    ∃ number, node.tree.children[number]? = some child.tree ∧
      child.address = number :: node.address := by
  simp [children, mem_siblings_iff]

theorem eq_of_mem_children {node first second : Node} (one : first ∈ node.children)
    (other : second ∈ node.children) (same : first.address = second.address) : first = second := by
  obtain ⟨number, found, here⟩ := mem_children_iff.mp one
  obtain ⟨number', found', here'⟩ := mem_children_iff.mp other
  obtain rfl : number = number' := by simpa [here, here'] using same
  have trees : first.tree = second.tree := Option.some.inj (found.symm.trans found')
  cases first
  cases second
  cases trees
  cases same
  rfl

theorem pairwise_siblings (address : List Nat) (first : Nat) (trees : List SyntaxTree) :
    (siblings address first trees).Pairwise fun one other => one.address ≠ other.address := by
  induction trees generalizing first with
  | nil => exact .nil
  | cons tree trees ih =>
    refine .cons (fun other later => ?_) (ih (first + 1))
    obtain ⟨number, _, here⟩ := mem_siblings_iff.mp later
    rw [here]
    intro same
    have := (List.cons.inj same).1
    omega

theorem pairwise_children (node : Node) :
    node.children.Pairwise fun one other => one.address ≠ other.address :=
  pairwise_siblings _ _ _

/-- What holds of a node whenever it holds of its children holds of every node. -/
theorem children_induction {motive : Node → Prop}
    (step : ∀ node : Node, (∀ child ∈ node.children, motive child) → motive node) (node : Node) :
    motive node :=
  step node fun child _ => children_induction step child
termination_by sizeOf node.tree
decreasing_by exact sizeOf_tree_lt ‹_›

/-! ### Nodes below a node -/

/-- The node is another one or lies below it. -/
def Inside (node root : Node) : Prop :=
  ReflTransGen (fun parent child => child ∈ parent.children) root node

theorem Inside.refl (node : Node) : node.Inside node := ReflTransGen.refl

theorem Inside.trans {node middle root : Node} (low : node.Inside middle)
    (high : middle.Inside root) : node.Inside root :=
  ReflTransGen.trans high low

theorem Inside.of_mem_children {node child : Node} (member : child ∈ node.children) :
    child.Inside node :=
  .single member

theorem Inside.of_field? {node child : Node} {field : String}
    (found : node.field? field = some child) : child.Inside node :=
  .of_mem_children (mem_children_of_field? found)

theorem Inside.suffix {node root : Node} (inside : node.Inside root) :
    root.address <:+ node.address := by
  induction inside with
  | refl => exact List.suffix_rfl
  | tail _ member ih =>
    obtain ⟨number, _, here⟩ := mem_children_iff.mp member
    exact here ▸ ih.trans (List.suffix_cons _ _)

theorem Inside.length_le {node root : Node} (inside : node.Inside root) :
    root.address.length ≤ node.address.length :=
  inside.suffix.length_le

/-- A node inside a child has a longer address. -/
theorem Inside.length_lt {node child root : Node} (inside : node.Inside child)
    (member : child ∈ root.children) : root.address.length < node.address.length := by
  obtain ⟨number, _, here⟩ := mem_children_iff.mp member
  have long := inside.length_le
  rw [here] at long
  exact long

theorem Inside.address_ne {node child root : Node} (inside : node.Inside child)
    (member : child ∈ root.children) : root.address ≠ node.address :=
  fun same => absurd (congrArg List.length same) (Nat.ne_of_lt (inside.length_lt member))

theorem Inside.eq_of_length_le {node root : Node} (inside : node.Inside root)
    (short : node.address.length ≤ root.address.length) : node = root := by
  obtain same | ⟨child, member, below⟩ := ReflTransGen.cases_head inside
  · exact same.symm
  · exact absurd (Inside.length_lt below member) (Nat.not_lt.mpr short)

/-- Below a common root, a node lies in all nodes whose addresses its own ends with. -/
theorem inside_of_suffix {root high low : Node} (above : high.Inside root)
    (below : low.Inside root) (ends : high.address <:+ low.address) : low.Inside high := by
  induction below generalizing high with
  | refl => exact above.eq_of_length_le ends.length_le ▸ .refl _
  | @tail parent low reached member ih =>
    obtain ⟨number, _, here⟩ := mem_children_iff.mp member
    rw [here, List.suffix_cons_iff] at ends
    obtain same | shorter := ends
    · -- The addresses are equal: then so are the parents, and the nodes are the same child.
      rcases ReflTransGen.cases_tail above with rfl | ⟨parent', reached', member'⟩
      · have short := Inside.length_le reached
        rw [same, List.length_cons] at short
        omega
      · obtain ⟨number', _, here'⟩ := mem_children_iff.mp member'
        have parents : parent'.address = parent.address :=
          (List.cons.inj (here'.symm.trans same)).2
        have again : parent.Inside parent' := ih reached' (parents ▸ List.suffix_rfl)
        obtain rfl := again.eq_of_length_le (parents ▸ Nat.le_refl _)
        exact eq_of_mem_children member member' (here.trans same.symm) ▸ .refl _
    · exact (Inside.of_mem_children member).trans (ih above shorter)

theorem Inside.eq_of_address {root first second : Node} (one : first.Inside root)
    (other : second.Inside root) (same : first.address = second.address) : first = second :=
  (inside_of_suffix other one (same ▸ List.suffix_rfl)).eq_of_length_le (same ▸ Nat.le_refl _)

/-- Of two nodes below a common root that share a node, one lies in the other. -/
theorem Inside.total {root node first second : Node} (above : first.Inside root)
    (above' : second.Inside root) (inFirst : node.Inside first) (inSecond : node.Inside second) :
    first.Inside second ∨ second.Inside first := by
  rcases List.suffix_or_suffix_of_suffix inFirst.suffix inSecond.suffix with shorter | longer
  · exact .inr (inside_of_suffix above above' shorter)
  · exact .inl (inside_of_suffix above' above longer)

/-- Two children of a node share no place. -/
theorem address_ne_of_children {node first second low low' : Node} (one : first ∈ node.children)
    (other : second ∈ node.children) (different : first.address ≠ second.address)
    (below : low.Inside first) (below' : low'.Inside second) : low.address ≠ low'.address := by
  intro same
  obtain ⟨number, _, here⟩ := mem_children_iff.mp one
  obtain ⟨number', _, here'⟩ := mem_children_iff.mp other
  have ends := below.suffix
  rw [same] at ends
  have equal : first.address = second.address :=
    (List.suffix_of_suffix_length_le ends below'.suffix (by simp [here, here'])).eq_of_length
      (by simp [here, here'])
  exact different equal

/-- A node below another, and a child of that other one: if they share a node, the first lies in
the second. -/
theorem Inside.of_child {node middle child root : Node} (below : middle.Inside root)
    (different : middle ≠ root) (member : child ∈ root.children) (inMiddle : node.Inside middle)
    (inChild : node.Inside child) : middle.Inside child := by
  obtain same | ⟨child', member', below'⟩ := ReflTransGen.cases_head below
  · exact absurd same.symm different
  · obtain rfl : child' = child := eq_of_mem_children member' member <| by_contra fun other =>
      address_ne_of_children member' member other (inMiddle.trans below') inChild rfl
    exact below'

/-- What lies below a node lies there with its parent. -/
theorem Inside.parent {root node parent child : Node} (above : node.Inside root)
    (above' : parent.Inside root) (member : child ∈ parent.children) (below : child.Inside node)
    (different : child ≠ node) : parent.Inside node := by
  obtain ⟨number, _, here⟩ := mem_children_iff.mp member
  have ends := below.suffix
  rw [here, List.suffix_cons_iff, ← here] at ends
  rcases ends with same | shorter
  · exact absurd ((below.eq_of_length_le (same ▸ Nat.le_refl _))) different
  · exact inside_of_suffix above above' shorter

/-! ### Visits -/

variable {enter keep : Node → Bool} {root node : Node}

theorem inside_of_mem_visit (visited : node ∈ root.visit enter keep) : node.Inside root := by
  induction root using children_induction with
  | step root ih =>
    rw [visit_eq, List.mem_cons] at visited
    rcases visited with rfl | below
    · exact .refl _
    · split at below
      · obtain ⟨child, kept, later⟩ := List.mem_flatMap.mp below
        have member := (List.mem_filter.mp kept).1
        exact (ih child member later).trans (.of_mem_children member)
      · simp at below

/-- A visit reaches what lies in its start, unless it turns back or leaves something out on the way
there. -/
theorem mem_visit_iff_between : node ∈ root.visit enter keep ↔ node.Inside root ∧
    ∀ between : Node, between.Inside root → node.Inside between →
      (between ≠ root → keep between = true) ∧ (between ≠ node → enter between = true) := by
  induction root using children_induction with
  | step root ih =>
    rw [visit_eq, List.mem_cons]
    constructor
    · rintro (rfl | below)
      · refine ⟨.refl _, fun between below above => ?_⟩
        have same := below.eq_of_length_le above.length_le
        exact ⟨fun different => absurd same different, fun different => absurd same different⟩
      · split at below
        · rename_i entered
          obtain ⟨child, kept, visited⟩ := List.mem_flatMap.mp below
          obtain ⟨member, keeps⟩ := List.mem_filter.mp kept
          obtain ⟨inside, clear⟩ := (ih child member).mp visited
          refine ⟨inside.trans (.of_mem_children member), fun between below above => ?_⟩
          by_cases atRoot : between = root
          · exact ⟨fun different => absurd atRoot different, fun _ => atRoot ▸ entered⟩
          · have deep := below.of_child atRoot member above inside
            refine ⟨fun _ => ?_, (clear between deep above).2⟩
            by_cases atChild : between = child
            · exact atChild ▸ keeps
            · exact (clear between deep above).1 atChild
        · cases below
    · -- The visit goes on in the child on the way, which is not left out.
      rintro ⟨inside, clear⟩
      obtain same | ⟨child, member, below⟩ := ReflTransGen.cases_head inside
      · exact .inl same.symm
      · have lower (between : Node) (deep : between.Inside child) : between ≠ root := by
          rintro rfl
          exact absurd (Inside.length_lt deep member) (Nat.lt_irrefl _)
        have entered := (clear root (.refl _) inside).2 (lower node below).symm
        have keeps := (clear child (.of_mem_children member) below).1 (lower child (.refl _))
        rw [if_pos entered, List.mem_flatMap]
        refine .inr ⟨child, List.mem_filter.mpr ⟨member, keeps⟩, (ih child member).mpr ⟨below, ?_⟩⟩
        intro between deep above
        have passed := clear between (deep.trans (.of_mem_children member)) above
        exact ⟨fun _ => passed.1 (lower between deep), passed.2⟩

/-- A visit that enters all it keeps reaches what lies in its start, unless something on the way
there is left out. -/
theorem mem_visit_iff : node ∈ root.visit (fun _ => true) keep ↔ node.Inside root ∧
    ∀ between : Node, between.Inside root → node.Inside between → between ≠ root →
      keep between = true := by
  simp [mem_visit_iff_between]

/-- A visit comes to its nodes in the order of a visit that leaves nothing out. -/
theorem visit_sublist (enter keep : Node → Bool) (root : Node) :
    (root.visit enter keep).Sublist (root.visit (fun _ => true) fun _ => true) := by
  induction root using children_induction with
  | step root ih =>
    rw [visit_eq, visit_eq]
    refine .cons_cons root ?_
    split
    · rw [if_pos rfl, List.filter_eq_self.mpr fun _ _ => rfl]
      exact (List.filter_sublist.flatMap _).trans (List.Sublist.flatMap_right _ ih)
    · exact List.nil_sublist _

/-- A visit reaches no place twice. -/
theorem pairwise_visit (enter keep : Node → Bool) (root : Node) :
    (root.visit enter keep).Pairwise fun one other => one.address ≠ other.address := by
  induction root using children_induction with
  | step root ih =>
    rw [visit_eq]
    have kept : ∀ child ∈ root.children.filter keep, child ∈ root.children :=
      fun _ member => (List.mem_filter.mp member).1
    -- The start has the shortest address, and different children have nothing in common.
    refine .cons (fun node visited => ?_) ?_
    · split at visited
      · obtain ⟨child, member, below⟩ := List.mem_flatMap.mp visited
        exact Inside.address_ne (inside_of_mem_visit below) (kept child member)
      · simp at visited
    · split
      · refine List.pairwise_flatMap.mpr ⟨fun child member => ih child (kept child member), ?_⟩
        refine ((pairwise_children root).filter keep).imp_of_mem ?_
        intro first second one other different low below low' below'
        exact address_ne_of_children (kept first one) (kept second other) different
          (inside_of_mem_visit below) (inside_of_mem_visit below')
      · exact .nil

end CallGraph.Node

namespace CallGraph

/-- The tree of a named node that its parent holds under a field. -/
def SyntaxTree.under (field kind text : String) (children : List SyntaxTree) : SyntaxTree :=
  .node ⟨kind, some field, true, false, false, false, text, 0⟩ children

end CallGraph
