import CallGraph.Cpp.Name

/-!
# Type names

A type as it is written: the class names it may stand for, and the scope it is written in, from
which they are looked up. The template arguments of a type are candidates too, so that a smart
pointer leads to what it points to.
-/
namespace CallGraph.Cpp

/-- The candidate names of a type, the type before its template arguments, and their scope. -/
structure TypeName where
  names : List (List String)
  scope : List String
deriving DecidableEq, Repr, Inhabited

namespace TypeName

def arguments (node : Node) : List Node :=
  match node.field? "arguments" with
  | some list => list.namedChildren
  | none => []

theorem sizeOf_lt_of_mem_arguments {node argument : Node} (member : argument ∈ arguments node) :
    sizeOf argument.tree < sizeOf node.tree := by
  unfold arguments at member
  split at member
  · rename_i list found
    exact Nat.lt_trans (Node.sizeOf_tree_lt (Node.namedChildren_subset member))
      (Node.sizeOf_tree_lt (Node.mem_children_of_field? found))
  · simp at member

/-- The names that a type may stand for, in order of preference. -/
def candidates (node : Node) : List (List String) :=
  if node.kind = "type_identifier" then [[node.text]]
  else if node.kind = "qualified_identifier" then
    let last := (splitQualified node).2
    qualifiedParts node :: (arguments last).attach.flatMap fun argument => candidates argument.val
  else if node.kind = "template_type" then
    ((node.field? "name").map fun name => [name.text]).toList ++
      (arguments node).attach.flatMap fun argument => candidates argument.val
  else if node.kind = "type_descriptor" then
    match _found : node.field? "type" with
    | some type => candidates type
    | none => []
  else []
termination_by sizeOf node.tree
decreasing_by
  · exact Nat.lt_of_lt_of_le (sizeOf_lt_of_mem_arguments argument.property)
      (sizeOf_splitQualified_le node)
  · exact sizeOf_lt_of_mem_arguments argument.property
  · exact Node.sizeOf_tree_lt (Node.mem_children_of_field? _found)

/-- The type that a node writes in a scope; none if it names no class. -/
def ofNode? (scope : List String) (node : Node) : Option TypeName :=
  match candidates node with
  | [] => none
  | names => some ⟨names, scope⟩

/-- The type with a plain name. -/
def ofName (scope : List String) (name : String) : TypeName := ⟨[[name]], scope⟩

end TypeName

/-- A scope and all scopes around it, innermost first. -/
def enclosingScopes (scope : List String) : List (List String) :=
  (List.range (scope.length + 1)).reverse.map scope.take

end CallGraph.Cpp
