import CallGraph.Path

/-!
# Display root

Labels show files relative to a display root. The default root of a set of files is the deepest
directory that holds all of them.
-/
namespace CallGraph

/-- The directory that labels are relative to, if there is one. -/
structure DisplayRoot where
  path? : Option Path
deriving DecidableEq, Repr, Inhabited

namespace DisplayRoot

/-- The directory of a path; a path without one stands for itself. -/
def directoryOf (path : Path) : Path := path.parent?.getD path

/-- The leading elements that two lists share. -/
def commonLead {α : Type} [DecidableEq α] : List α → List α → List α
  | left :: lefts, right :: rights => if left = right then left :: commonLead lefts rights else []
  | _, _ => []

/-- The deepest directory above both arguments, rebuilt from its components. -/
def meet (left right : Path) : Path :=
  Path.ofComponents (commonLead left.components right.components)

/-- The deepest directory shared by all paths; none for no paths. -/
def commonDirectory? : List Path → Option Path
  | [] => none
  | path :: paths => some (paths.foldl (fun common next => meet common (directoryOf next))
      (directoryOf path))

/-- The display root that a list of files has by default. -/
def ofFiles (files : List Path) : DisplayRoot := ⟨commonDirectory? files⟩

/-- The text that stands for a path: what follows the root, or all of it. -/
def label (root : DisplayRoot) (path : Path) : String :=
  match root.path?.bind path.stripBase? with
  | some rest => if rest.text = "" then path.text else rest.text
  | none => path.text

end DisplayRoot

end CallGraph
