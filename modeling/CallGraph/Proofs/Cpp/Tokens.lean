import CallGraph.Cpp.Spelling
import CallGraph.Proofs.Syntax.Inside
import Mathlib.Data.List.Basic

/-!
# The tokens of a tree

What is left of a tree without layout and comments (`partsOf`), and the tokens that are read off a
node. Where nothing in a node is skipped, they are those of its parts (`tokens_eq_of_clear`), so
the canonical spelling does not depend on layout and comments.
-/
namespace CallGraph.Cpp

/-- A token, or a piece of syntax of a kind with what it consists of. -/
inductive Part where
  | token (text : String)
  | group (kind : String) (parts : List Part)

mutual

/-- What a tree says apart from layout and comments: one part, or none for a comment. -/
def partsOf : SyntaxTree → List Part
  | .node label children =>
    if label.kind = "comment" then []
    else match children with
      | [] => [.token (Text.trim label.text)]
      | first :: rest => [.group label.kind (partsOf first ++ allParts rest)]

def allParts : List SyntaxTree → List Part
  | [] => []
  | tree :: trees => partsOf tree ++ allParts trees

end

mutual

def Part.tokens : Part → List String
  | .token text => [text].filter (· ≠ "")
  | .group _ parts => tokensOfAll parts

def tokensOfAll : List Part → List String
  | [] => []
  | part :: parts => part.tokens ++ tokensOfAll parts

end

@[simp] theorem tokensOfAll_nil : tokensOfAll [] = [] := rfl

@[simp] theorem tokensOfAll_append (first second : List Part) :
    tokensOfAll (first ++ second) = tokensOfAll first ++ tokensOfAll second := by
  induction first with
  | nil => rfl
  | cons part rest ih => simp only [List.cons_append, tokensOfAll, ih, List.append_assoc]

@[simp] theorem allParts_append (first second : List SyntaxTree) :
    allParts (first ++ second) = allParts first ++ allParts second := by
  induction first with
  | nil => rfl
  | cons tree rest ih => simp only [List.cons_append, allParts, ih, List.append_assoc]

theorem partsOf_comment {tree : SyntaxTree} (comment : tree.label.kind = "comment") :
    partsOf tree = [] := by
  cases tree with
  | node label children =>
    rw [partsOf.eq_def]
    exact if_pos comment

/-- Below a node with children, the tokens are those of the children. -/
theorem tokensOfAll_partsOf_node {label : NodeLabel} {children : List SyntaxTree}
    (noComment : label.kind ≠ "comment") (inner : children ≠ []) :
    tokensOfAll (partsOf (.node label children)) = tokensOfAll (allParts children) := by
  cases children with
  | nil => exact absurd rfl inner
  | cons first rest =>
    rw [partsOf, if_neg noComment]
    simp only [tokensOfAll, Part.tokens, allParts, List.append_nil]

/-! ### The tokens of a node -/

theorem filter_flatMap_keep {α β : Type} {keep : α → Bool} {read : α → List β} {items : List α}
    (nothing : ∀ item ∈ items, keep item = false → read item = []) :
    (items.filter keep).flatMap read = items.flatMap read := by
  induction items with
  | nil => rfl
  | cons item rest ih =>
    have later := ih fun other member => nothing other (List.mem_cons_of_mem _ member)
    cases kept : keep item with
    | true => simp [kept, later]
    | false => simp [kept, later, nothing item List.mem_cons_self kept]

/-- Whether a node is read at all. -/
def isRead (skip : List (List Nat)) (node : Node) : Bool :=
  !skip.contains node.address && node.kind != "comment"

/-- What is read below a node that is read itself. -/
def leafTexts (skip : List (List Nat)) (node : Node) : List String :=
  (((node.visit (fun _ => true) (isRead skip)).filter (·.tree.children.isEmpty)).map
    fun leaf => Text.trim leaf.text).filter (· ≠ "")

theorem tokens_eq_leafTexts (skip : List (List Nat)) (node : Node) :
    tokens skip node = if isRead skip node then leafTexts skip node else [] := by
  have same : (fun node : Node => !(node.address ∈ skip) && node.kind != "comment") =
      isRead skip := by
    funext node
    simp [isRead]
  rw [tokens, same]
  rfl

/-- The tokens of a node are its text, if it has no children, or else those of its children. -/
theorem tokens_eq (skip : List (List Nat)) (node : Node) : tokens skip node =
    if isRead skip node then
      if node.tree.children = [] then [Text.trim node.text].filter (· ≠ "")
      else node.children.flatMap (tokens skip)
    else [] := by
  have unread (child : Node) (dropped : isRead skip child = false) : tokens skip child = [] := by
    rw [tokens_eq_leafTexts, dropped, if_neg (by simp)]
  cases read : isRead skip node with
  | false => rw [unread node read, if_neg (by simp)]
  | true =>
    rw [if_pos rfl, ← filter_flatMap_keep fun child _ => unread child, tokens_eq_leafTexts, read,
      if_pos rfl, leafTexts, Node.visit_eq, if_pos rfl]
    by_cases leaf : node.tree.children = []
    · simp [leaf, Node.children, Node.siblings]
    · rw [if_neg leaf]
      simp only [List.filter_cons, List.isEmpty_iff, leaf, if_false, List.filter_flatMap,
        List.map_flatMap]
      refine List.flatMap_congr fun child member => ?_
      rw [tokens_eq_leafTexts, (List.mem_filter.mp member).2, if_pos rfl, leafTexts]

/-- Nothing in the node is skipped. -/
def Clear (skip : List (List Nat)) (node : Node) : Prop :=
  ∀ low : Node, low.Inside node → low.address ∉ skip

theorem Clear.child {skip : List (List Nat)} {node child : Node} (clear : Clear skip node)
    (member : child ∈ node.children) : Clear skip child :=
  fun low inside => clear low (inside.trans (.of_mem_children member))

theorem flatMap_siblings_of_clear {skip : List (List Nat)} {address : List Nat} {first : Nat}
    {trees : List SyntaxTree}
    (each : ∀ node ∈ Node.siblings address first trees,
      tokens skip node = tokensOfAll (partsOf node.tree)) :
    (Node.siblings address first trees).flatMap (tokens skip) = tokensOfAll (allParts trees) := by
  induction trees generalizing first with
  | nil => rfl
  | cons tree rest ih =>
    rw [Node.siblings, List.flatMap_cons, each _ List.mem_cons_self,
      ih fun node later => each node (List.mem_cons_of_mem _ later), allParts, tokensOfAll_append]

/-- Where nothing is skipped, the tokens do not depend on layout and comments. -/
theorem tokens_eq_of_clear {skip : List (List Nat)} {node : Node} (clear : Clear skip node) :
    tokens skip node = tokensOfAll (partsOf node.tree) := by
  induction node using Node.children_induction with
  | step node ih =>
    rw [tokens_eq]
    obtain ⟨⟨label, children⟩, address⟩ := node
    have unskipped : address ∉ skip := clear _ (.refl _)
    by_cases comment : label.kind = "comment"
    · have isComment : (SyntaxTree.node label children).label.kind = "comment" := comment
      rw [partsOf_comment isComment, if_neg (by simp [isRead, Node.kind, comment])]
      rfl
    · rw [if_pos (by simp [isRead, Node.kind, comment, unskipped])]
      cases children with
      | nil => simp [partsOf, comment, Part.tokens, tokensOfAll, Node.text]
      | cons first rest =>
        rw [if_neg (by simp), tokensOfAll_partsOf_node comment (by simp)]
        exact flatMap_siblings_of_clear fun child member => ih child member (clear.child member)

end CallGraph.Cpp
