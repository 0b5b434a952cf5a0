/-!
# Syntax trees

A concrete syntax tree over a source text. A node knows its kind, the field under which its parent
holds it, whether it is a named node, an error or a token that the parser had to invent, and the
text it spans. A `Node` is a subtree together with its address, the child numbers on the way up to
the root, so that equal subtrees at different places are told apart.
-/
namespace CallGraph

/-- What a syntax tree says of one node. -/
structure NodeLabel where
  kind : String
  /-- The field under which the parent holds the node. -/
  field? : Option String
  isNamed : Bool
  /-- Whether the parser invented the token to go on. -/
  isMissing : Bool
  /-- Whether the node holds text that the parser could not use. -/
  isError : Bool
  /-- Whether the parser reports a syntax error at or below the node. -/
  hasError : Bool
  text : String
  /-- The number of bytes before the node. -/
  start : Nat
deriving DecidableEq, Repr, Inhabited

/-- A node with its children, in source order. -/
inductive SyntaxTree where
  | node (label : NodeLabel) (children : List SyntaxTree)
deriving Repr, Inhabited

namespace SyntaxTree

def label : SyntaxTree → NodeLabel
  | .node label _ => label

def children : SyntaxTree → List SyntaxTree
  | .node _ children => children

@[simp] theorem label_node (label : NodeLabel) (children : List SyntaxTree) :
    (SyntaxTree.node label children).label = label := rfl

@[simp] theorem children_node (label : NodeLabel) (children : List SyntaxTree) :
    (SyntaxTree.node label children).children = children := rfl

theorem sizeOf_lt_of_mem_children {tree child : SyntaxTree} (member : child ∈ tree.children) :
    sizeOf child < sizeOf tree := by
  cases tree with
  | node label children =>
    have below := List.sizeOf_lt_of_mem member
    rw [children_node] at below
    rw [SyntaxTree.node.sizeOf_spec]
    omega

/--
A row of a tree written as a table in preorder: the label and the number of children, whose rows
follow.
-/
structure Row where
  label : NodeLabel
  childCount : Nat
deriving Repr, Inhabited

/--
The trees whose preorder tables the rows are, one after the other. Read from the end, a row takes
as many of the trees that follow it as it has children.
-/
def ofRows (rows : List Row) : List SyntaxTree :=
  rows.foldr (fun row trees => .node row.label (trees.take row.childCount) ::
    trees.drop row.childCount) []

end SyntaxTree

/-- A subtree and its address. -/
structure Node where
  tree : SyntaxTree
  /-- Child numbers from the node up to the root, innermost first. -/
  address : List Nat
deriving Repr, Inhabited

namespace Node

def ofTree (tree : SyntaxTree) : Node := ⟨tree, []⟩

def kind (node : Node) : String := node.tree.label.kind
def text (node : Node) : String := node.tree.label.text
def isNamed (node : Node) : Bool := node.tree.label.isNamed
def isMissing (node : Node) : Bool := node.tree.label.isMissing
def isError (node : Node) : Bool := node.tree.label.isError
def hasError (node : Node) : Bool := node.tree.label.hasError
def start (node : Node) : Nat := node.tree.label.start

/-- Addresses for a list of siblings, the first of which has number `first`. -/
def siblings (address : List Nat) : Nat → List SyntaxTree → List Node
  | _, [] => []
  | first, tree :: trees => ⟨tree, first :: address⟩ :: siblings address (first + 1) trees

theorem tree_mem_of_mem_siblings {address : List Nat} {first : Nat} {trees : List SyntaxTree}
    {node : Node} (member : node ∈ siblings address first trees) : node.tree ∈ trees := by
  induction trees generalizing first with
  | nil => simp [siblings] at member
  | cons tree trees ih =>
    simp only [siblings, List.mem_cons] at member
    rcases member with rfl | later
    · simp
    · exact List.mem_cons_of_mem _ (ih later)

/-- All children of a node, tokens and comments included. -/
def children (node : Node) : List Node := siblings node.address 0 node.tree.children

/-- Children are smaller than their parent. -/
theorem sizeOf_tree_lt {node child : Node} (member : child ∈ node.children) :
    sizeOf child.tree < sizeOf node.tree :=
  SyntaxTree.sizeOf_lt_of_mem_children (tree_mem_of_mem_siblings member)

/-- Whether a node counts as part of the program: named, and not a comment. -/
def isMeaningful (node : Node) : Bool := node.isNamed && node.kind != "comment"

/-- The named children that are not comments. -/
def namedChildren (node : Node) : List Node := node.children.filter isMeaningful

/-- The children that the node holds under a field. -/
def fieldChildren (node : Node) (field : String) : List Node :=
  node.children.filter fun child => child.tree.label.field? == some field

/-- The first child that the node holds under a field. -/
def field? (node : Node) (field : String) : Option Node :=
  node.children.find? fun child => child.tree.label.field? == some field

theorem namedChildren_subset {node child : Node} (member : child ∈ node.namedChildren) :
    child ∈ node.children := (List.mem_filter.mp member).1

theorem mem_children_of_field? {node child : Node} {field : String}
    (found : node.field? field = some child) : child ∈ node.children :=
  List.mem_of_find?_eq_some found

/--
A node and the nodes below it, in source order. Below a node only the children in `keep` are
visited, and none at all unless the node is in `enter`.
-/
def visit (enter keep : Node → Bool) (node : Node) : List Node :=
  node :: if enter node then
      (node.children.filter keep).attach.flatMap fun child => visit enter keep child.val
    else []
termination_by sizeOf node.tree
decreasing_by exact sizeOf_tree_lt (List.mem_filter.mp child.property).1

theorem visit_eq (enter keep : Node → Bool) (node : Node) :
    node.visit enter keep = node ::
      if enter node then (node.children.filter keep).flatMap (visit enter keep) else [] := by
  rw [visit]
  simp only [List.flatMap_subtype, List.unattach_attach]

end Node

/-- Line and column of a place in a text, both counted from one, the column in bytes. -/
structure Position where
  line : Nat
  column : Nat
deriving DecidableEq, Repr, Inhabited

namespace Position

/-- Moves on from a position over the text up to `bytes` bytes. -/
def advance (position : Position) : List Char → Nat → Position
  | [], _ => position
  | c :: rest, bytes =>
    if bytes = 0 then position
    else if c = '\n' then advance ⟨position.line + 1, 1⟩ rest (bytes - 1)
    else advance ⟨position.line, position.column + c.utf8Size⟩ rest (bytes - c.utf8Size)

/-- The position that lies `bytes` bytes into a text. -/
def ofOffset (text : String) (bytes : Nat) : Position := advance ⟨1, 1⟩ text.toList bytes

end Position

end CallGraph
