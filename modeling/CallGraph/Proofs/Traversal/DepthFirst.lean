import CallGraph.Fresh
import Mathlib.Data.List.Nodup
import Mathlib.Logic.Relation

/-!
# Depth-first order

The order in which a search depth first comes to the nodes of a graph, described without the search:
it is the order of their first occurrences in the walk that goes down from each node again and again
and turns back only where it comes to a node above (`OrderedGraph.walk`).

A search that never visits a node twice has an agenda of nodes that are still to be visited, each
with the nodes above it. What remains to be visited is what the walks from the agenda lead to and
the search has not seen, in order (`OrderedGraph.remaining`). The two steps of such a search,
`remaining_skip` and `remaining_visit`, take from it exactly the node that they visit. They rely on
the invariant `OrderedGraph.Covers`: a node that has been seen is either above what comes next, or
all of its successors have been seen as well.
-/
namespace CallGraph

theorem nodup_eraseDups {α : Type} [DecidableEq α] (items : List α) : items.eraseDups.Nodup := by
  induction length : items.length using Nat.strongRecOn generalizing items with
  | ind _ ih =>
    cases items with
    | nil => exact List.nodup_nil
    | cons x rest =>
      have shorter : (rest.filter fun y => !y == x).length < (x :: rest).length :=
        Nat.lt_succ_of_le (List.length_filter_le _ _)
      rw [List.eraseDups_cons]
      exact List.nodup_cons.mpr ⟨by simp, ih _ (length ▸ shorter) _ rfl⟩

/-- A finite graph, in which the successors of a node come in an order. -/
structure OrderedGraph (α : Type) where
  next : α → List α
  /-- All nodes that have a predecessor, and maybe others. -/
  pool : List α
  next_mem : ∀ x, ∀ y ∈ next x, y ∈ pool

namespace OrderedGraph

variable {α : Type} [DecidableEq α] (graph : OrderedGraph α)

/-- The walk from a node below some others: the node, and then the walks from its successors. At a
node below itself it turns back. -/
def walk (above : List α) (x : α) : List α :=
  if _cut : x ∈ above then []
  else x :: (graph.next x).attach.flatMap fun y => walk (x :: above) y.1
termination_by (fresh graph.pool above).length + if x ∈ graph.pool then 0 else 1
decreasing_by
  have known : y.1 ∈ graph.pool := graph.next_mem x y.1 y.2
  rw [if_pos known]
  by_cases inPool : x ∈ graph.pool
  · rw [if_pos inPool]
    exact length_fresh_cons_lt inPool _cut
  · rw [if_neg inPool]
    have fewer : (fresh graph.pool (x :: above)).length ≤ (fresh graph.pool above).length :=
      length_fresh_le_of_subset fun _ member => List.mem_cons_of_mem _ member
    omega

variable {graph} {above seen : List α} {x y : α}

theorem walk_of_mem (cut : x ∈ above) : graph.walk above x = [] := by
  rw [walk, dif_pos cut]

theorem walk_of_notMem (new : x ∉ above) :
    graph.walk above x = x :: (graph.next x).flatMap (graph.walk (x :: above)) := by
  rw [walk, dif_neg new, List.flatMap_subtype (fun _ _ => rfl), List.unattach_attach]

theorem mem_walk_self (new : x ∉ above) : x ∈ graph.walk above x := by
  rw [walk_of_notMem new]
  exact List.mem_cons_self

/-- What holds where a walk turns back, and holds of a node if it holds of its successors below it,
holds everywhere. -/
theorem walk_induction {motive : List α → α → Prop}
    (back : ∀ above x, x ∈ above → motive above x)
    (down : ∀ above x, x ∉ above → (∀ y ∈ graph.next x, motive (x :: above) y) → motive above x)
    (above : List α) (x : α) : motive above x := by
  induction above, x using walk.induct graph with
  | case1 above x cut => exact back above x cut
  | case2 above x new ih => exact down above x new fun y successor => ih ⟨y, successor⟩

/-- A walk goes on to all successors that are not above it. -/
theorem mem_of_mem_walk {z : α} (visited : y ∈ graph.walk above x) (successor : z ∈ graph.next y) :
    z ∈ above ∨ z ∈ graph.walk above x := by
  induction above, x using graph.walk_induction with
  | back above x cut =>
    rw [walk_of_mem cut] at visited
    cases visited
  | down above x new ih =>
    -- Whatever comes of the walk below `x`, it is above the walk or on it.
    have within {w : α} (next : w ∈ graph.next x)
        (member : z ∈ x :: above ∨ z ∈ graph.walk (x :: above) w) :
        z ∈ above ∨ z ∈ graph.walk above x := by
      rw [walk_of_notMem new, List.mem_cons, List.mem_flatMap]
      rcases member with here | deeper
      · rcases List.mem_cons.mp here with same | higher
        · exact .inr (.inl same)
        · exact .inl higher
      · exact .inr (.inr ⟨w, next, deeper⟩)
    rw [walk_of_notMem new, List.mem_cons, List.mem_flatMap] at visited
    rcases visited with rfl | ⟨w, next, deeper⟩
    · by_cases old : z ∈ y :: above
      · exact within successor (.inl old)
      · exact within successor (.inr (mem_walk_self old))
    · exact within next (ih w next deeper)

/-- All successors of some nodes are among them, as far as those nodes are not above. -/
def ClosedBelow (graph : OrderedGraph α) (above seen : List α) : Prop :=
  ∀ y ∈ seen, y ∉ above → ∀ z ∈ graph.next y, z ∈ seen

/-- Below one of them, a walk does not leave the nodes whose successors are among them. -/
theorem ClosedBelow.walk_subset (closed : graph.ClosedBelow above seen) (member : x ∈ seen) :
    ∀ y ∈ graph.walk above x, y ∈ seen := by
  induction above, x using graph.walk_induction with
  | back above x cut => simp [walk_of_mem cut]
  | down above x new ih =>
    have deeper : graph.ClosedBelow (x :: above) seen := fun y visited outside =>
      closed y visited fun higher => outside (List.mem_cons_of_mem _ higher)
    rw [walk_of_notMem new]
    refine List.forall_mem_cons.mpr ⟨member, fun y visited => ?_⟩
    obtain ⟨w, next, visited⟩ := List.mem_flatMap.mp visited
    exact ih w next deeper (closed x member new w next) y visited

theorem ClosedBelow.append_walk (closed : graph.ClosedBelow above seen)
    (within : ∀ y ∈ above, y ∈ seen) (x : α) :
    graph.ClosedBelow above (graph.walk above x ++ seen) := by
  intro y member outside z successor
  rw [List.mem_append] at member ⊢
  rcases member with visited | old
  · exact (mem_of_mem_walk visited successor).symm.imp_right (within z)
  · exact .inr (closed y old outside z successor)

/-- A walk from the top comes to all that can be reached, and to nothing else. -/
theorem mem_walk_nil_iff :
    y ∈ graph.walk [] x ↔ Relation.ReflTransGen (fun a b => b ∈ graph.next a) x y := by
  constructor
  · intro visited
    suffices every : ∀ above x, y ∈ graph.walk above x →
        Relation.ReflTransGen (fun a b => b ∈ graph.next a) x y from every [] x visited
    intro above x
    induction above, x using graph.walk_induction with
    | back above x cut => simp [walk_of_mem cut]
    | down above x new ih =>
      rw [walk_of_notMem new, List.mem_cons, List.mem_flatMap]
      rintro (rfl | ⟨w, next, deeper⟩)
      · exact .refl
      · exact .head next (ih w next deeper)
  · intro leads
    induction leads with
    | refl => exact mem_walk_self List.not_mem_nil
    | tail _ next visited => exact (mem_of_mem_walk visited next).resolve_left List.not_mem_nil

/-! ### What remains of a search -/

/-- The walks from an agenda of nodes, each below some others. -/
def walks (graph : OrderedGraph α) (agenda : List (List α × α)) : List α :=
  agenda.flatMap fun item => graph.walk item.1 item.2

/-- What remains to be visited, in order. -/
def remaining (graph : OrderedGraph α) (seen : List α) (agenda : List (List α × α)) : List α :=
  (fresh (graph.walks agenda) seen).eraseDups

/-- The successors of a node, below it. -/
def below (graph : OrderedGraph α) (above : List α) (x : α) : List (List α × α) :=
  (graph.next x).map fun y => (x :: above, y)

/-- When it comes to a node on the agenda, a search has seen all that is above it, and all
successors of all else that it has seen. -/
def Covers (graph : OrderedGraph α) (seen : List α) : List (List α × α) → Prop
  | [] => True
  | (above, x) :: rest => (∀ y ∈ above, y ∈ seen) ∧ graph.ClosedBelow above seen ∧
      Covers graph (graph.walk above x ++ seen) rest

variable {agenda rest : List (List α × α)}

theorem walks_cons :
    graph.walks ((above, x) :: rest) = graph.walk above x ++ graph.walks rest :=
  List.flatMap_cons

theorem walks_below_append (above : List α) (x : α) (rest : List (List α × α)) :
    graph.walks (graph.below above x ++ rest) =
      (graph.next x).flatMap (graph.walk (x :: above)) ++ graph.walks rest := by
  rw [walks, List.flatMap_append, below, List.flatMap_map, walks]

/-- It matters only which nodes have been seen. -/
theorem Covers.congr {other : List α} (covers : graph.Covers seen agenda)
    (same : ∀ y, y ∈ seen ↔ y ∈ other) : graph.Covers other agenda := by
  induction agenda generalizing seen other with
  | nil => trivial
  | cons item rest ih =>
    obtain ⟨within, closed, later⟩ := covers
    refine ⟨fun y higher => (same y).mp (within y higher), ?_, ih later fun y => ?_⟩
    · intro y member outside z successor
      exact (same z).mp (closed y ((same y).mpr member) outside z successor)
    · rw [List.mem_append, List.mem_append, same]

theorem Covers.prepend {nodes : List α} (within : ∀ y ∈ above, y ∈ seen)
    (closed : graph.ClosedBelow above seen)
    (later : graph.Covers (nodes.flatMap (graph.walk above) ++ seen) rest) :
    graph.Covers seen (nodes.map (fun y => (above, y)) ++ rest) := by
  induction nodes generalizing seen with
  | nil => exact later
  | cons y nodes ih =>
    refine ⟨within, closed, ih ?_ (closed.append_walk within y) (later.congr fun z => ?_)⟩
    · exact fun z higher => List.mem_append_right _ (within z higher)
    · simp only [List.flatMap_cons, List.mem_append]
      exact or_assoc.trans or_left_comm

/-- A node that has been seen is left out, and what remains is what did. -/
theorem remaining_skip (covers : graph.Covers seen ((above, x) :: rest)) (old : x ∈ seen) :
    graph.Covers seen rest ∧
      graph.remaining seen ((above, x) :: rest) = graph.remaining seen rest := by
  obtain ⟨_, closed, later⟩ := covers
  have visited := closed.walk_subset old
  refine ⟨later.congr fun y => ?_, ?_⟩
  · rw [List.mem_append]
    exact or_iff_right_of_imp (visited y)
  · have none : (graph.walk above x).filter (fun y => y ∉ seen) = [] := by
      simpa [List.filter_eq_nil_iff] using visited
    rw [remaining, remaining, walks_cons, fresh, List.filter_append, none, List.nil_append, fresh]

/-- A node that has not been seen is the first that remains, and its successors come next. -/
theorem remaining_visit (covers : graph.Covers seen ((above, x) :: rest)) (new : x ∉ seen) :
    graph.Covers (x :: seen) (graph.below above x ++ rest) ∧
      graph.remaining seen ((above, x) :: rest) =
        x :: graph.remaining (x :: seen) (graph.below above x ++ rest) := by
  obtain ⟨within, closed, later⟩ := covers
  have outside : x ∉ above := fun higher => new (within x higher)
  constructor
  · refine .prepend ?_ ?_ (later.congr fun y => ?_)
    · exact List.forall_mem_cons.mpr
        ⟨List.mem_cons_self, fun y higher => List.mem_cons_of_mem _ (within y higher)⟩
    · intro y member notAbove z successor
      rw [List.mem_cons, not_or] at notAbove
      have old : y ∈ seen := (List.mem_cons.mp member).resolve_left notAbove.1
      exact List.mem_cons_of_mem _ (closed y old notAbove.2 z successor)
    · rw [walk_of_notMem outside]
      simp only [List.mem_append, List.mem_cons]
      exact (or_assoc.trans or_left_comm)
  · rw [remaining, remaining, walks_cons, walk_of_notMem outside, List.cons_append, fresh,
      List.filter_cons_of_pos (by simpa using new), List.eraseDups_cons]
    congr 2
    rw [walks_below_append, fresh, List.filter_filter]
    refine List.filter_congr fun y _ => ?_
    simp [beq_eq_decide]

theorem remaining_nil (seen : List α) : graph.remaining seen [] = [] := rfl

/-- A search that has not begun will come to all that the walk from its root comes to. -/
theorem remaining_start (graph : OrderedGraph α) (x : α) :
    graph.Covers [] [([], x)] ∧ graph.remaining [] [([], x)] = (graph.walk [] x).eraseDups := by
  refine ⟨⟨by simp, fun y member => absurd member List.not_mem_nil, trivial⟩, ?_⟩
  rw [remaining, walks_cons, fresh, List.filter_eq_self.mpr (by simp)]
  simp [walks]

end OrderedGraph

end CallGraph
