import CallGraph.Index.Basic

/-!
# Work in place

Work on an index that may fail half way. Whatever has been merged by then stays merged: a failure
takes nothing back.
-/
namespace CallGraph

/-- What comes of a result in place: its value or its error, and no change. -/
@[simp] theorem run_ofExcept {σ α : Type} (result : Except Error α) (state : σ) :
    (MonadExcept.ofExcept result : EStateM Error σ α).run state =
      match result with
      | .ok value => .ok value state
      | .error error => .error error state := by
  cases result <;> rfl

abbrev IndexM := EStateM Error Index

/-- The record of a callable as the index has it by now. -/
def IndexM.lookup (id : CallableId) : IndexM Callable := do
  MonadExcept.ofExcept ((← get).lookup id)

theorem IndexM.run_lookup (id : CallableId) (index : Index) :
    (IndexM.lookup id).run index =
      match index.lookup id with
      | .ok callable => .ok callable index
      | .error error => .error error index := by
  rw [lookup, EStateM.run_bind, EStateM.run_get]
  cases found : index.lookup id <;> simp [found]

end CallGraph
