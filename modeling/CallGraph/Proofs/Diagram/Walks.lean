import CallGraph.Fresh
import CallGraph.Proofs.Index.Calls
import Mathlib.Data.List.Chain
import Mathlib.Data.List.Perm.Subperm

/-!
# Walks through the calls

The walks from a callable that stop where they come back to a callable they have passed. They are
enumerated as a search meets them: a walk before its extensions, and the walks into one callee
before those into the next.

Inductions follow the search itself (`path_induction`). They end because a callable that is followed
is known and new on its path, so that fewer of the known callables are left.
-/
namespace CallGraph.Diagram

variable {index : Index}

/-- The walks from a callable below a path that has led to it. -/
def walksFrom (index : Index) (path : List CallableId) (id : CallableId) :
    List (List CallableId) :=
  [id] :: if _onPath : id ∈ path then []
    else ((index.calleeIds id).attach.flatMap fun callee =>
      walksFrom index (path ++ [id]) callee.val).map (id :: ·)
termination_by (fresh index.ids path).length
decreasing_by
  exact length_fresh_lt (Index.caller_known callee.property) _onPath
    (fun _ member => List.mem_append_left _ member) (by simp)

theorem walksFrom_eq (path : List CallableId) (id : CallableId) :
    walksFrom index path id = [id] :: if id ∈ path then []
      else ((index.calleeIds id).flatMap (walksFrom index (path ++ [id]))).map (id :: ·) := by
  rw [walksFrom]
  simp only [List.flatMap_def, List.attach_map_val, dite_eq_ite]

/-- What holds of a callable on its path holds always, if it holds whenever it does for the
callees of a callable that is new on the path. -/
theorem path_induction (index : Index) {motive : List CallableId → CallableId → Prop}
    (step : ∀ path id, (id ∉ path → ∀ callee, index.HasCall id callee →
      motive (path ++ [id]) callee) → motive path id)
    (path : List CallableId) (id : CallableId) : motive path id :=
  step path id fun _new callee _called => path_induction index step (path ++ [id]) callee
termination_by (fresh index.ids path).length
decreasing_by
  exact length_fresh_lt (Index.caller_known _called) _new
    (fun _ member => List.mem_append_left _ member) (by simp)

theorem cons_mem_walksFrom_iff {path rest : List CallableId} {id first : CallableId} :
    first :: rest ∈ walksFrom index path id ↔
      first = id ∧ (rest = [] ∨ id ∉ path ∧ ∃ callee, index.HasCall id callee ∧
        rest ∈ walksFrom index (path ++ [id]) callee) := by
  rw [walksFrom_eq]
  by_cases onPath : id ∈ path
  · simp [onPath]
  · simp only [onPath, if_false, List.mem_cons, List.cons.injEq, List.mem_map, List.mem_flatMap,
      not_false_eq_true, true_and, Index.HasCall]
    constructor
    · rintro (⟨rfl, rfl⟩ | ⟨walk, member, rfl, rfl⟩)
      · exact ⟨rfl, .inl rfl⟩
      · exact ⟨rfl, .inr member⟩
    · rintro ⟨rfl, rfl | member⟩
      · exact .inl ⟨rfl, rfl⟩
      · exact .inr ⟨rest, member, rfl, rfl⟩

theorem nil_not_mem_walksFrom {path : List CallableId} {id : CallableId} :
    [] ∉ walksFrom index path id := by
  rw [walksFrom_eq]
  by_cases onPath : id ∈ path <;> simp [onPath]

/-- The enumerated walks are those that follow calls and repeat no callable before their end. -/
theorem mem_walksFrom_iff {path walk : List CallableId} {id : CallableId} :
    walk ∈ walksFrom index path id ↔
      walk.head? = some id ∧ walk.IsChain index.HasCall ∧ walk.dropLast.Nodup ∧
        ∀ passed ∈ walk.dropLast, passed ∉ path := by
  -- Along the walk, not along the search: its next callable tells in which branch it is.
  induction walk generalizing path id with
  | nil => simp [nil_not_mem_walksFrom]
  | cons first rest ih =>
    rw [cons_mem_walksFrom_iff]
    cases rest with
    | nil => simp
    | cons second later =>
      simp only [ih, List.head?_cons, Option.some.injEq, List.dropLast_cons_cons,
        List.isChain_cons_cons, List.nodup_cons, List.forall_mem_cons, List.mem_append,
        List.mem_singleton, reduceCtorEq, false_or]
      constructor
      · rintro ⟨rfl, new, callee, called, rfl, chain, distinct, unseen⟩
        have here : first ∉ (second :: later).dropLast := fun member =>
          unseen first member (.inr rfl)
        exact ⟨rfl, ⟨called, chain⟩, ⟨here, distinct⟩, new,
          fun passed member onPath => unseen passed member (.inl onPath)⟩
      · rintro ⟨rfl, ⟨called, chain⟩, ⟨here, distinct⟩, new, unseen⟩
        refine ⟨rfl, new, second, called, rfl, chain, distinct, ?_⟩
        rintro passed member (onPath | rfl)
        · exact unseen passed member onPath
        · exact here member

/-! ### The order of the walks -/

/-- One walk is met before another. -/
inductive Precedes (index : Index) : List CallableId → List CallableId → Prop where
  | extension (walk more : List CallableId) (longer : more ≠ []) :
      Precedes index walk (walk ++ more)
  | sibling (lead : List CallableId) (caller left right : CallableId)
      (leftRest rightRest : List CallableId)
      (order : [left, right].Sublist (index.calleeIds caller)) :
      Precedes index (lead ++ caller :: left :: leftRest) (lead ++ caller :: right :: rightRest)

theorem Precedes.cons {earlier later : List CallableId} (first : CallableId)
    (precedes : Precedes index earlier later) :
    Precedes index (first :: earlier) (first :: later) := by
  cases precedes with
  | extension _ more longer => exact .extension (first :: earlier) more longer
  | sibling lead caller left right leftRest rightRest order =>
    exact .sibling (first :: lead) caller left right leftRest rightRest order

theorem Precedes.ne (wellFormed : WellFormed index.nodes) {earlier later : List CallableId}
    (precedes : Precedes index earlier later) : earlier ≠ later := by
  intro same
  cases precedes with
  | extension _ more longer => exact longer (List.self_eq_append_right.mp same)
  | sibling lead caller left right leftRest rightRest order =>
    have parts := List.append_cancel_left same
    simp only [List.cons.injEq, true_and] at parts
    obtain ⟨rfl, _⟩ := parts
    -- A callee cannot stand before itself among the callees of one caller.
    have distinct := order.nodup (Index.nodup_calleeIds wellFormed caller)
    simp at distinct

theorem pairwise_walksFrom (path : List CallableId) (id : CallableId) :
    (walksFrom index path id).Pairwise (Precedes index) := by
  induction path, id using path_induction index with
  | step path id ih =>
    rw [walksFrom_eq, List.pairwise_cons]
    constructor
    · -- All other walks extend `[id]`.
      intro walk member
      by_cases onPath : id ∈ path
      · simp [onPath] at member
      · rw [if_neg onPath] at member
        obtain ⟨rest, inner, rfl⟩ := List.mem_map.mp member
        refine .extension [id] rest ?_
        rintro rfl
        obtain ⟨callee, _, empty⟩ := List.mem_flatMap.mp inner
        exact nil_not_mem_walksFrom empty
    · by_cases onPath : id ∈ path
      · simp [onPath]
      · rw [if_neg onPath, List.pairwise_map, List.pairwise_flatMap]
        constructor
        · intro callee called
          exact (ih onPath callee called).imp fun precedes => precedes.cons id
        · rw [List.pairwise_iff_forall_sublist]
          intro left right order earlier first later second
          -- Both walks begin with their callee, so they part right below `id`.
          obtain ⟨startsLeft, _⟩ := mem_walksFrom_iff.mp first
          obtain ⟨startsRight, _⟩ := mem_walksFrom_iff.mp second
          obtain ⟨leftRest, rfl⟩ := List.head?_eq_some_iff.mp startsLeft
          obtain ⟨rightRest, rfl⟩ := List.head?_eq_some_iff.mp startsRight
          exact .sibling [] id left right leftRest rightRest order

/-! ### Walks and reachability -/

theorem exists_call_of_mem_dropLast {walk : List CallableId} {passed : CallableId}
    (chain : walk.IsChain index.HasCall) (member : passed ∈ walk.dropLast) :
    ∃ callee, index.HasCall passed callee := by
  induction walk with
  | nil => simp at member
  | cons first rest ih =>
    cases rest with
    | nil => simp at member
    | cons second later =>
      rw [List.isChain_cons_cons] at chain
      rw [List.dropLast_cons_cons, List.mem_cons] at member
      rcases member with rfl | below
      · exact ⟨second, chain.1⟩
      · exact ih chain.2 below

/-- No walk is longer than the number of known callables allows. -/
theorem length_le_of_mem_walksFrom {path walk : List CallableId} {id : CallableId}
    (member : walk ∈ walksFrom index path id) : walk.length ≤ index.ids.length + 1 := by
  obtain ⟨_, chain, distinct, _⟩ := mem_walksFrom_iff.mp member
  -- Before its end a walk passes callers only, each of them once.
  have known : walk.dropLast ⊆ index.ids := by
    intro passed below
    obtain ⟨callee, called⟩ := exists_call_of_mem_dropLast chain below
    exact Index.caller_known called
  have bound := (List.subperm_of_subset distinct known).length_le
  rw [List.length_dropLast] at bound
  omega

theorem reaches_of_walk {walk : List CallableId} {first last : CallableId}
    (starts : walk.head? = some first) (chain : walk.IsChain index.HasCall)
    (ends : walk.getLast? = some last) : index.Reaches first last := by
  induction walk generalizing first with
  | nil => simp at starts
  | cons id rest ih =>
    obtain rfl : id = first := by simpa using starts
    cases rest with
    | nil =>
      obtain rfl : id = last := by simpa using ends
      exact .refl
    | cons second later =>
      rw [List.isChain_cons_cons] at chain
      rw [List.getLast?_cons_cons] at ends
      exact .head chain.1 (ih rfl chain.2 ends)

/-- What can be reached can be reached without passing a callable twice. -/
theorem exists_walk_of_reaches {first last : CallableId} (reaches : index.Reaches first last) :
    ∃ walk : List CallableId, walk.head? = some first ∧ walk.IsChain index.HasCall ∧
      walk.Nodup ∧ walk.getLast? = some last := by
  induction reaches using Relation.ReflTransGen.head_induction_on with
  | refl => exact ⟨[last], rfl, .singleton last, by simp, rfl⟩
  | @head caller callee called _ ih =>
    obtain ⟨walk, starts, chain, distinct, ends⟩ := ih
    by_cases again : caller ∈ walk
    · -- The walk passes the caller itself: what comes before it there is a detour.
      obtain ⟨detour, rest, rfl⟩ := List.append_of_mem again
      refine ⟨caller :: rest, List.head?_cons, chain.suffix (List.suffix_append _ _), ?_, ?_⟩
      · exact distinct.sublist (List.sublist_append_right _ _)
      · rw [← ends, List.getLast?_append_of_ne_nil _ (List.cons_ne_nil _ _)]
    · obtain ⟨rest, rfl⟩ := List.head?_eq_some_iff.mp starts
      refine ⟨caller :: callee :: rest, List.head?_cons, ?_, ?_, ?_⟩
      · exact List.isChain_cons_cons.mpr ⟨called, chain⟩
      · exact List.nodup_cons.mpr ⟨again, distinct⟩
      · rw [List.getLast?_cons_cons, ends]

end CallGraph.Diagram
