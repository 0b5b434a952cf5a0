import CallGraph.Catalog.Basic
import CallGraph.Diagram

/-!
# Sessions

A session explores one project: it opens a catalog, ingests a translation unit, settles on a root,
and then grows the graph and chooses what to draw. An observer is told of what changes.
-/
namespace CallGraph

inductive Event where
  | phaseChanged (phase : Phase)
  | callableUpdated (callable : Callable)
  | inclusionChanged (id : CallableId) (included : Bool)
deriving DecidableEq, Repr, Inhabited

structure Session where
  phase : Phase
  extraArguments : List String
  /-- What labels are relative to; without it, the directory shared by the catalog's files. -/
  displayRoot? : Option Path
  /-- Whether callables of system headers are merged. -/
  keepSystem : Bool
  catalog? : Option Catalog
  index : Index
  root? : Option CallableId
  /-- The callables to draw, in the order in which they were chosen. -/
  included : List CallableId
deriving Repr, Inhabited

namespace Session

def start (displayRoot? : Option Path) : Session where
  phase := .initialized
  extraArguments := []
  displayRoot? := displayRoot?
  keepSystem := false
  catalog? := none
  index := .empty ⟨none⟩
  root? := none
  included := []

/-- What labels are relative to once a catalog is opened. -/
def displayRootOf (session : Session) (catalog : Catalog) : DisplayRoot :=
  match session.displayRoot? with
  | some path => ⟨some path⟩
  | none => catalog.displayRoot

/-- The diagram of the included callables below the root. -/
def diagram (session : Session) : Except Error String :=
  if session.phase ≠ .interactive then
    .error (.preconditionFailed
      s!"export needs a selected root (session is {session.phase.label})")
  else
    match session.root? with
    | none => .error (.preconditionFailed "no root selected")
    | some root => .ok (Diagram.text session.index root session.included)

/-- The files of the opened catalog. -/
def translationUnits (session : Session) : List Path :=
  (session.catalog?.map Catalog.paths).getD []

def isIncluded (session : Session) (id : CallableId) : Bool := id ∈ session.included

end Session

end CallGraph
