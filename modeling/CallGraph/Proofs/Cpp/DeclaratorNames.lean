import CallGraph.Cpp.Name
import CallGraph.Proofs.Cpp.Tokens

/-!
# The name within a declarator

The declarators around a name may nest in any order (`DeclaratorForm`). A declarator says what the
declarators around its name say and nothing more, once the name within all of them is left out
(`DeclaratorForm.named`). A declarator without a name says the same (`DeclaratorForm.unnamed`).
-/
namespace CallGraph.Cpp

/-! ### Declarators around a name -/

/-- One of the declarators around a name: its kind, and what it says before and behind the
declarator within it. -/
structure Layer where
  kind : String
  before : List Part
  after : List Part

/-- What the declarators around a name say, from the outermost one inwards. -/
def layersTokens : List Layer → List String
  | [] => []
  | layer :: inner => tokensOfAll layer.before ++ layersTokens inner ++ tokensOfAll layer.after

def nameKinds : List String := ["identifier", "field_identifier"]

/-- The declarators that may stand around a name. -/
def wrapperKinds : List String :=
  ["pointer_declarator", "reference_declarator", "array_declarator", "init_declarator",
    "attributed_declarator", "function_declarator", "parenthesized_declarator"]

/-- The declarators without a name, each with the kind of the one that has a name. -/
def abstractKinds : List (String × String) :=
  [("abstract_pointer_declarator", "pointer_declarator"),
    ("abstract_reference_declarator", "reference_declarator"),
    ("abstract_array_declarator", "array_declarator"),
    ("abstract_function_declarator", "function_declarator"),
    ("abstract_parenthesized_declarator", "parenthesized_declarator")]

def IsMeaningful (tree : SyntaxTree) : Prop :=
  tree.label.isNamed = true ∧ tree.label.kind ≠ "comment"

/-- The declarator within another one is held as such, or it is the last that has a name of the
grammar. -/
inductive HoldsWithin (before : List SyntaxTree) (inner : SyntaxTree) (after : List SyntaxTree) :
    Prop where
  | field (held : inner.label.field? = some "declarator")
    (first : ∀ tree ∈ before, tree.label.field? ≠ some "declarator")
  | last (unheld : ∀ tree ∈ before ++ inner :: after, tree.label.field? ≠ some "declarator")
    (meaningful : IsMeaningful inner) (last : ∀ tree ∈ after, ¬ IsMeaningful tree)

/-- What the layers of a declarator are, and whether there is a name within them. A declarator of
another kind is taken as it is, with all names in it. -/
inductive DeclaratorForm : SyntaxTree → Bool → List Layer → Prop where
  | name {label : NodeLabel} {children : List SyntaxTree} (isName : label.kind ∈ nameKinds) :
    DeclaratorForm (.node label children) true []
  | around {label : NodeLabel} {before after : List SyntaxTree} {inner : SyntaxTree} {named : Bool}
    {layers : List Layer} (wraps : label.kind ∈ wrapperKinds)
    (within : HoldsWithin before inner after) (form : DeclaratorForm inner named layers) :
    DeclaratorForm (.node label (before ++ inner :: after)) named
      (⟨label.kind, allParts before, allParts after⟩ :: layers)
  | abstractEnd {label : NodeLabel} {kind : String} {before after : List SyntaxTree}
    (bare : (label.kind, kind) ∈ abstractKinds) (solid : before ++ after ≠ []) :
    DeclaratorForm (.node label (before ++ after)) false
      [⟨kind, allParts before, allParts after⟩]
  | abstractAround {label : NodeLabel} {kind : String} {before after : List SyntaxTree}
    {inner : SyntaxTree} {layers : List Layer} (bare : (label.kind, kind) ∈ abstractKinds)
    (form : DeclaratorForm inner false layers) :
    DeclaratorForm (.node label (before ++ inner :: after)) false
      (⟨kind, allParts before, allParts after⟩ :: layers)
  | other {tree : SyntaxTree} (noName : tree.label.kind ∉ nameKinds)
    (noWrapper : tree.label.kind ∉ wrapperKinds) :
    DeclaratorForm tree false [⟨tree.label.kind, partsOf tree, []⟩]

theorem siblings_append (address : List Nat) (first : Nat) (trees rest : List SyntaxTree) :
    Node.siblings address first (trees ++ rest) =
      Node.siblings address first trees ++ Node.siblings address (first + trees.length) rest := by
  induction trees generalizing first with
  | nil => rfl
  | cons tree trees ih =>
    have next : first + 1 + trees.length = first + (trees.length + 1) := by omega
    simp only [List.cons_append, Node.siblings, ih, List.length_cons, next]

theorem siblings_split (address : List Nat) (before after : List SyntaxTree) (inner : SyntaxTree) :
    Node.siblings address 0 (before ++ inner :: after) = Node.siblings address 0 before ++
      ⟨inner, before.length :: address⟩ :: Node.siblings address (before.length + 1) after := by
  rw [siblings_append, Node.siblings, Nat.zero_add]

theorem children_split (label : NodeLabel) (before after : List SyntaxTree) (inner : SyntaxTree)
    (address : List Nat) :
    (⟨.node label (before ++ inner :: after), address⟩ : Node).children =
      Node.siblings address 0 before ++
        ⟨inner, before.length :: address⟩ :: Node.siblings address (before.length + 1) after :=
  siblings_split address before after inner

theorem declaredName?_eq (declarator : Node) : declaredName? declarator =
    if declarator.kind ∈ nameKinds then some declarator
    else if declarator.kind ∈ wrapperKinds then
      match declarator.field? "declarator" with
      | some inner => declaredName? inner
      | none => declarator.namedChildren.getLast?.bind declaredName?
    else none := by
  rw [declaredName?]
  simp only [nameKinds, wrapperKinds, List.mem_cons, List.not_mem_nil, or_false]
  split
  · rfl
  · split
    · split
      · rename_i inner found
        rw [found]
      · rename_i missing
        rw [missing]
        dsimp only
        split
        · rename_i last
          rw [last, Option.bind_some]
        · rename_i last
          rw [last, Option.bind_none]
    · rfl

section Within

variable {label : NodeLabel} {before after : List SyntaxTree} {inner : SyntaxTree}
  {address : List Nat}

/-- The first child that is held under a field. -/
theorem field?_split {field : String} (held : inner.label.field? = some field)
    (first : ∀ tree ∈ before, tree.label.field? ≠ some field) :
    (⟨.node label (before ++ inner :: after), address⟩ : Node).field? field =
      some ⟨inner, before.length :: address⟩ := by
  rw [Node.field?, children_split, List.find?_append, List.find?_eq_none.mpr]
  · rw [Option.none_or, List.find?_cons_of_pos]
    simpa using held
  · intro child member
    simpa using first child.tree (Node.tree_mem_of_mem_siblings member)

theorem field?_eq_none {trees : List SyntaxTree} {field : String}
    (unheld : ∀ tree ∈ trees, tree.label.field? ≠ some field) :
    (⟨.node label trees, address⟩ : Node).field? field = none := by
  refine List.find?_eq_none.mpr fun child member => ?_
  simpa using unheld child.tree (Node.tree_mem_of_mem_siblings member)

theorem isMeaningful_iff {node : Node} : node.isMeaningful = true ↔ IsMeaningful node.tree := by
  simp [Node.isMeaningful, IsMeaningful, Node.isNamed, Node.kind]

/-- The name of a declarator is that of the declarator within it. -/
theorem declaredName?_around (wraps : label.kind ∈ wrapperKinds)
    (within : HoldsWithin before inner after) :
    declaredName? ⟨.node label (before ++ inner :: after), address⟩ =
      declaredName? ⟨inner, before.length :: address⟩ := by
  have noName : label.kind ∉ nameKinds := by
    intro isName
    simp only [nameKinds, List.mem_cons, List.not_mem_nil, or_false] at isName
    rcases isName with isName | isName <;> simp [isName, wrapperKinds] at wraps
  rw [declaredName?_eq, if_neg (by simpa [Node.kind] using noName),
    if_pos (by simpa [Node.kind] using wraps)]
  cases within with
  | field held first => rw [field?_split held first]
  | last unheld meaningful last =>
    rw [field?_eq_none unheld]
    dsimp only
    -- No child is held as the declarator, so it is the last one with a name of the grammar.
    have nothing : (Node.siblings address (before.length + 1) after).filter Node.isMeaningful =
        [] := by
      refine List.filter_eq_nil_iff.mpr fun child member => ?_
      exact fun named => last child.tree (Node.tree_mem_of_mem_siblings member)
        (isMeaningful_iff.mp named)
    have isLast : (⟨.node label (before ++ inner :: after), address⟩ : Node).namedChildren.getLast? =
        some ⟨inner, before.length :: address⟩ := by
      rw [Node.namedChildren, children_split, List.filter_append,
        List.filter_cons_of_pos (isMeaningful_iff.mpr meaningful), nothing]
      simp
    rw [isLast, Option.bind_some]

end Within

theorem inside_of_declaredName? {declarator name : Node}
    (found : declaredName? declarator = some name) : name.Inside declarator := by
  induction declarator using Node.children_induction with
  | step declarator ih =>
    rw [declaredName?_eq] at found
    split at found
    · obtain rfl := Option.some.inj found
      exact .refl _
    · split at found
      · split at found
        · rename_i inner inField
          have child := Node.mem_children_of_field? inField
          exact (ih inner child found).trans (.of_mem_children child)
        · obtain ⟨inner, last, found⟩ := Option.bind_eq_some_iff.mp found
          have child := Node.namedChildren_subset (List.mem_of_getLast? last)
          exact (ih inner child found).trans (.of_mem_children child)
      · cases found

/-! ### The tokens of a declarator without its name -/

theorem noComment_of_wraps {kind : String} (wraps : kind ∈ wrapperKinds) : kind ≠ "comment" := by
  rintro rfl
  simp [wrapperKinds] at wraps

theorem kinds_of_bare {kind named : String} (bare : (kind, named) ∈ abstractKinds) :
    kind ∉ nameKinds ∧ kind ∉ wrapperKinds ∧ kind ≠ "comment" := by
  simp only [abstractKinds, List.mem_cons, Prod.mk.injEq, List.not_mem_nil, or_false] at bare
  rcases bare with ⟨rfl, _⟩ | ⟨rfl, _⟩ | ⟨rfl, _⟩ | ⟨rfl, _⟩ | ⟨rfl, _⟩ <;> decide

theorem declaredName?_eq_none {node : Node} (noName : node.kind ∉ nameKinds)
    (noWrapper : node.kind ∉ wrapperKinds) : declaredName? node = none := by
  rw [declaredName?_eq, if_neg noName, if_neg noWrapper]

/-- A declarator without a name says what its layers say. -/
theorem DeclaratorForm.unnamed {tree : SyntaxTree} {named : Bool} {layers : List Layer}
    (form : DeclaratorForm tree named layers) (bare : named = false) :
    (∀ address, declaredName? ⟨tree, address⟩ = none) ∧
      tokensOfAll (partsOf tree) = layersTokens layers := by
  -- There is no name to leave out, so the induction is on what the declarators say.
  induction form with
  | name => cases bare
  | around wraps within _ ih =>
    obtain ⟨nameless, said⟩ := ih bare
    refine ⟨fun address => (declaredName?_around wraps within).trans (nameless _), ?_⟩
    rw [tokensOfAll_partsOf_node (noComment_of_wraps wraps) (by simp)]
    simp [allParts, layersTokens, said]
  | abstractEnd isBare solid =>
    obtain ⟨noName, noWrapper, noComment⟩ := kinds_of_bare isBare
    refine ⟨fun address => declaredName?_eq_none noName noWrapper, ?_⟩
    rw [tokensOfAll_partsOf_node noComment solid]
    simp [layersTokens]
  | abstractAround isBare _ ih =>
    obtain ⟨noName, noWrapper, noComment⟩ := kinds_of_bare isBare
    refine ⟨fun address => declaredName?_eq_none noName noWrapper, ?_⟩
    rw [tokensOfAll_partsOf_node noComment (by simp)]
    simp [allParts, layersTokens, (ih bare).2]
  | other noName noWrapper =>
    exact ⟨fun address => declaredName?_eq_none noName noWrapper, by simp [layersTokens]⟩

/-- The other children stand at other places. -/
theorem address_ne_split {address : List Nat} {before after : List SyntaxTree} {other : Node}
    (member : other ∈ Node.siblings address 0 before ++
      Node.siblings address (before.length + 1) after) :
    other.address ≠ before.length :: address := by
  intro same
  rcases List.mem_append.mp member with earlier | later
  · obtain ⟨number, found, here⟩ := Node.mem_siblings_iff.mp earlier
    have short : number < before.length := (List.getElem?_eq_some_iff.mp found).1
    have equal := (List.cons.inj (here.symm.trans same)).1
    omega
  · obtain ⟨number, _, here⟩ := Node.mem_siblings_iff.mp later
    have equal := (List.cons.inj (here.symm.trans same)).1
    omega

/-- Of what lies in the node, only the one place is skipped. -/
def SkipsOnly (skip : List (List Nat)) (node : Node) (place : List Nat) : Prop :=
  place ∈ skip ∧ ∀ low : Node, low.Inside node → low.address ∈ skip → low.address = place

/-- A declarator with a name says what its layers say, once the name is left out. -/
theorem DeclaratorForm.named {tree : SyntaxTree} {named : Bool} {layers : List Layer}
    (form : DeclaratorForm tree named layers) (isNamed : named = true) (address : List Nat) :
    ∃ name, declaredName? ⟨tree, address⟩ = some name ∧ name.Inside ⟨tree, address⟩ ∧
      ∀ skip, SkipsOnly skip ⟨tree, address⟩ name.address →
        tokens skip ⟨tree, address⟩ = layersTokens layers := by
  induction form generalizing address with
  | @name label children isName =>
    refine ⟨⟨.node label children, address⟩, ?_, .refl _, fun skip skips => ?_⟩
    · rw [declaredName?_eq, if_pos (by simpa [Node.kind] using isName)]
    · rw [tokens_eq, if_neg (by simp [isRead, skips.1])]
      rfl
  | @around label before after inner _ layers wraps within _ ih =>
    obtain ⟨name, found, inside, said⟩ := ih isNamed (before.length :: address)
    have split := children_split label before after inner address
    have child : (⟨inner, before.length :: address⟩ : Node) ∈
        (⟨.node label (before ++ inner :: after), address⟩ : Node).children := by
      rw [split]
      simp
    refine ⟨name, (declaredName?_around wraps within).trans found,
      inside.trans (.of_mem_children child), fun skip skips => ?_⟩
    -- The name is within the inner declarator: nothing beside it is skipped, nor is what is around.
    have clear (other : Node) (member : other ∈ Node.siblings address 0 before ++
        Node.siblings address (before.length + 1) after) : Clear skip other := by
      have sibling : other ∈ (⟨.node label (before ++ inner :: after), address⟩ : Node).children := by
        rw [split]
        exact (List.Sublist.append_left (List.sublist_cons_self _ _) _).subset member
      intro low below skipped
      have same := skips.2 low (below.trans (.of_mem_children sibling)) skipped
      exact Node.address_ne_of_children sibling child (address_ne_split member) below inside same
    have read : isRead skip ⟨.node label (before ++ inner :: after), address⟩ = true := by
      have unskipped : address ∉ skip := by
        intro skipped
        exact Node.Inside.address_ne inside child (skips.2 _ (.refl _) skipped)
      simp [isRead, unskipped, Node.kind, noComment_of_wraps wraps]
    rw [tokens_eq, if_pos read, if_neg (by simp), split, List.flatMap_append, List.flatMap_cons,
      said skip ⟨skips.1, fun low below => skips.2 low (below.trans (.of_mem_children child))⟩,
      flatMap_siblings_of_clear fun other member =>
        tokens_eq_of_clear (clear other (List.mem_append_left _ member)),
      flatMap_siblings_of_clear fun other member =>
        tokens_eq_of_clear (clear other (List.mem_append_right _ member)),
      layersTokens, List.append_assoc]
  | abstractEnd => cases isNamed
  | abstractAround => cases isNamed
  | other => cases isNamed

end CallGraph.Cpp
