import CallGraph.Cpp.Spelling

/-!
# Names

Possibly qualified names as they are written, taken apart into components. Template arguments are
not part of a component.
-/
namespace CallGraph.Cpp

/-- The component that a node stands for: `Foo` for `Foo<T>`, the text otherwise. -/
def componentName (node : Node) : String :=
  if node.kind ∈ ["template_type", "template_function", "template_method"] then
    match node.field? "name" with
    | some name => name.text
    | none => node.text
  else node.text

/-- The qualifiers of a name, outermost first, and the node of its last component. -/
def splitQualified (node : Node) : List String × Node :=
  if node.kind = "qualified_identifier" then
    let qualifier := ((node.field? "scope").map componentName).toList
    match _found : node.field? "name" with
    | some name =>
      let inner := splitQualified name
      (qualifier ++ inner.1, inner.2)
    | none => (qualifier, node)
  else ([], node)
termination_by sizeOf node.tree
decreasing_by exact Node.sizeOf_tree_lt (Node.mem_children_of_field? _found)

theorem sizeOf_splitQualified_le (node : Node) :
    sizeOf (splitQualified node).2.tree ≤ sizeOf node.tree := by
  fun_induction splitQualified node with
  | case1 node qualified qualifier name found inner ih =>
    exact Nat.le_trans ih (Nat.le_of_lt (Node.sizeOf_tree_lt (Node.mem_children_of_field? found)))
  | case2 => exact Nat.le_refl _
  | case3 => exact Nat.le_refl _

def qualifiedParts (node : Node) : List String :=
  let (qualifiers, last) := splitQualified node
  qualifiers ++ [componentName last]

/-- The text of the name of a function that is looked up, in the spelling of its declaration. -/
def calleeSpelling (node : Node) : String :=
  if node.kind = "destructor_name" then Text.withoutBlanks node.text
  else if node.kind = "operator_name" then operatorName node.text
  else componentName node

/-- The identifier that a declarator names, if there is one. -/
def declaredName? (declarator : Node) : Option Node :=
  if declarator.kind = "identifier" ∨ declarator.kind = "field_identifier" then some declarator
  else if declarator.kind ∈ ["pointer_declarator", "reference_declarator", "array_declarator",
      "init_declarator", "attributed_declarator", "function_declarator",
      "parenthesized_declarator"] then
    match _inField : declarator.field? "declarator" with
    | some inner => declaredName? inner
    | none =>
      match _last : declarator.namedChildren.getLast? with
      | some inner => declaredName? inner
      | none => none
  else none
termination_by sizeOf declarator.tree
decreasing_by
  · exact Node.sizeOf_tree_lt (Node.mem_children_of_field? _inField)
  · exact Node.sizeOf_tree_lt (Node.namedChildren_subset (List.mem_of_getLast? _last))

end CallGraph.Cpp
