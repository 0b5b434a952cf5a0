/-!
# Session phases

A session passes through phases, each of which allows certain operations.
-/
namespace CallGraph

/-- How far a session has come. -/
inductive Phase where
  | initialized
  | argumentsSet
  | readyToSelectUnit
  | readyToSelectRoot
  | interactive
deriving DecidableEq, Repr, Inhabited

def Phase.label : Phase → String
  | .initialized => "Initialized"
  | .argumentsSet => "ArgumentsSet"
  | .readyToSelectUnit => "ReadyToSelectTU"
  | .readyToSelectRoot => "ReadyToSelectRoot"
  | .interactive => "Interactive"

/-- The place of a phase in the course of a session. -/
def Phase.rank : Phase → Nat
  | .initialized => 0
  | .argumentsSet => 1
  | .readyToSelectUnit => 2
  | .readyToSelectRoot => 3
  | .interactive => 4

end CallGraph
