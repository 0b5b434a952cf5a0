import CallGraph.Index.Basic
import CallGraph.Fresh

/-!
# Sequence diagrams

The part of a call tree that consists of included callables, as the lines of a sequence diagram.
A call is drawn from the nearest included caller above it, and the callee's lifeline is active
while its own calls are drawn. A call back to a callable that is on its own path is drawn, but not
followed.
-/
namespace CallGraph.Diagram

inductive Line where
  /-- A call, from the participant of the nearest included caller if there is one. -/
  | call (sender? : Option String) (callee : Callable)
  | activate (participant : String)
  | deactivate (participant : String)
deriving DecidableEq, Repr, Inhabited

/-- A call and the lines that are drawn while it is active. -/
def bracket (sender? : Option String) (callee : Callable) (inner : List Line) : List Line :=
  .call sender? callee :: .activate callee.participant :: inner ++ [.deactivate callee.participant]

/--
The lines below a callable. `path` holds the callables from the root down to it; each callable
that is followed is new on its path, so the depth is bounded by the number of known callables.
-/
def below (index : Index) (included path : List CallableId) (sender? : Option String)
    (id : CallableId) : List Line :=
  (index.calleesOf id).attach.flatMap fun ⟨callee, _called⟩ =>
    let inner (sender? : Option String) : List Line :=
      if _onPath : callee.id ∈ path then []
      else below index included (path ++ [callee.id]) sender? callee.id
    if callee.id ∈ included then bracket sender? callee (inner (some callee.participant))
    else inner sender?
termination_by (fresh (index.callables.map Callable.id) path).length
decreasing_by
  have known : callee.id ∈ index.callables.map Callable.id :=
    List.mem_map_of_mem (Index.mem_callables_of_mem_calleesOf _called)
  exact length_fresh_lt known _onPath (fun _ member => List.mem_append_left _ member) (by simp)

def lines (index : Index) (root : CallableId) (included : List CallableId) : List Line :=
  match index.find? root with
  | none => []
  | some callable =>
    if root ∈ included then
      bracket none callable (below index included [root] (some callable.participant) root)
    else below index included [root] none root

/-- The text of a line. A participant without a name sends from nowhere. -/
def Line.render : Line → String
  | .call sender? callee =>
    let from_ := match sender? with
      | none | some "" => ""
      | some sender => s!"\"{sender}\""
    s!"{from_} -> \"{callee.participant}\": {callee.qualifiedName}"
  | .activate participant => s!"activate \"{participant}\""
  | .deactivate participant => s!"deactivate \"{participant}\""

/-- The text of the lines between the marks that start and end a diagram. -/
def renderBody (lines : List Line) : String :=
  String.join (lines.map fun line => line.render ++ "\n")

def render (lines : List Line) : String := "@startuml\n\n" ++ renderBody lines ++ "\n@enduml"

/-- The diagram of a root, drawn from the included callables. -/
def text (index : Index) (root : CallableId) (included : List CallableId) : String :=
  render (lines index root included)

end CallGraph.Diagram
