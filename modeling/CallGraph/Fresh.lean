/-!
# Elements not yet seen

Searches over a finite pool end because each step uses up an element that was not seen before.
-/
namespace CallGraph

variable {α : Type} [DecidableEq α]

/-- The elements of a pool that have not been seen. -/
def fresh (pool seen : List α) : List α := pool.filter fun x => x ∉ seen

theorem length_fresh_le_of_subset {pool smaller larger : List α}
    (subset : ∀ x ∈ smaller, x ∈ larger) :
    (fresh pool larger).length ≤ (fresh pool smaller).length := by
  induction pool with
  | nil => simp [fresh]
  | cons y ys ih =>
    simp only [fresh, List.filter_cons] at *
    by_cases inLarger : y ∈ larger <;> by_cases inSmaller : y ∈ smaller
    · simpa [inLarger, inSmaller] using ih
    · simp only [inLarger, inSmaller, not_true_eq_false, not_false_eq_true, decide_true,
        decide_false, if_true, List.length_cons]
      exact Nat.le_succ_of_le ih
    · exact absurd (subset y inSmaller) inLarger
    · simpa [inLarger, inSmaller] using ih

/-- Seeing a new element of the pool leaves fewer to see. -/
theorem length_fresh_lt {pool seen larger : List α} {x : α} (known : x ∈ pool)
    (new : x ∉ seen) (subset : ∀ y ∈ seen, y ∈ larger) (now : x ∈ larger) :
    (fresh pool larger).length < (fresh pool seen).length := by
  induction pool with
  | nil => simp at known
  | cons y ys ih =>
    have below : (fresh ys larger).length ≤ (fresh ys seen).length :=
      length_fresh_le_of_subset subset
    simp only [fresh, List.filter_cons] at *
    by_cases here : y = x
    · subst here
      simp only [now, new, not_true_eq_false, not_false_eq_true, decide_true, decide_false,
        if_true, List.length_cons]
      simpa using Nat.lt_succ_of_le below
    · have later := ih (by simpa [Ne.symm here] using known)
      by_cases inLarger : y ∈ larger <;> by_cases inSeen : y ∈ seen
      · simpa [inLarger, inSeen] using later
      · simp only [inLarger, inSeen, not_true_eq_false, not_false_eq_true, decide_true,
          decide_false, if_true, List.length_cons]
        exact Nat.lt_succ_of_lt (by simpa using later)
      · exact absurd (subset y inSeen) inLarger
      · simpa [inLarger, inSeen] using later

theorem length_fresh_cons_lt {pool seen : List α} {x : α} (known : x ∈ pool)
    (new : x ∉ seen) : (fresh pool (x :: seen)).length < (fresh pool seen).length :=
  length_fresh_lt known new (fun _ member => List.mem_cons_of_mem _ member) (by simp)

end CallGraph
