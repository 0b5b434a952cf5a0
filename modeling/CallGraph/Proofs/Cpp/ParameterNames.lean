import CallGraph.Proofs.Cpp.DeclaratorNames
import CallGraph.Proofs.Cpp.ScopeIdentity

/-!
# Names of parameters

Main result: `parameters_identified_by_types`. Two parameter lists that declare the same types are
displayed alike, whatever their parameters are called and whatever defaults they have, so functions
that differ in nothing else have the same identity.

Of a declarator only the name within it is left out. Names in the parameter list of a function
pointer are part of what the type is displayed as (`callback_name_displayed`).
-/
namespace CallGraph.Cpp

/-! ### The types that a list declares -/

def parameterKinds : List String :=
  ["parameter_declaration", "optional_parameter_declaration", "variadic_parameter_declaration"]

/-- What an entry of a parameter list declares: that more arguments may follow, or a parameter with
what stands before and behind its declarator, and what the declarator says. -/
inductive ParameterType where
  | ellipsis
  | type (before : List Part) (layers : List Layer) (after : List Part)

/-- The tree belongs to the type of a parameter and is not its declarator. -/
def IsSpecifier (tree : SyntaxTree) : Prop :=
  tree.label.field? ≠ some "declarator" ∧ tree.label.field? ≠ some "default_value" ∧
    tree.label.kind ≠ "="

/-- The tree is the sign before a default value, or a comment. -/
def IsSign (tree : SyntaxTree) : Prop :=
  (tree.label.kind = "=" ∨ tree.label.kind = "comment") ∧
    tree.label.field? ≠ some "declarator" ∧ tree.label.field? ≠ some "default_value"

/-- No default value, or one with its sign. -/
inductive IsDefault : List SyntaxTree → Prop where
  | none : IsDefault []
  | value {signs comments : List SyntaxTree} {value : SyntaxTree}
    (held : value.label.field? = some "default_value")
    (signed : ∀ tree ∈ signs ++ comments, IsSign tree) : IsDefault (signs ++ value :: comments)

/-- The entry declares a parameter of the type: with a declarator or without, and with a default
value or without. -/
inductive DeclaresType : SyntaxTree → ParameterType → Prop where
  | ellipsis {tree : SyntaxTree} (dots : tree.label.kind = "...") : DeclaresType tree .ellipsis
  | declarator {label : NodeLabel} {before after standard : List SyntaxTree}
    {declarator : SyntaxTree} {named : Bool} {layers : List Layer}
    (isParameter : label.kind ∈ parameterKinds)
    (specifiers : ∀ tree ∈ before ++ after, IsSpecifier tree)
    (held : declarator.label.field? = some "declarator") (noSign : declarator.label.kind ≠ "=")
    (form : DeclaratorForm declarator named layers) (default : IsDefault standard) :
    DeclaresType (.node label (before ++ declarator :: after ++ standard))
      (.type (allParts before) layers (allParts after))
  | typeOnly {label : NodeLabel} {before after standard : List SyntaxTree}
    (isParameter : label.kind ∈ parameterKinds) (solid : before ++ after ≠ [])
    (specifiers : ∀ tree ∈ before ++ after, IsSpecifier tree) (default : IsDefault standard) :
    DeclaresType (.node label (before ++ after ++ standard))
      (.type (allParts before) [] (allParts after))

def isEntry (tree : SyntaxTree) : Bool :=
  tree.label.kind = "..." ∨ tree.label.kind ∈ parameterKinds

/-- The entries of the list declare parameters of the types, in this order. -/
def DeclaresTypes (list : SyntaxTree) (types : List ParameterType) : Prop :=
  List.Forall₂ DeclaresType (list.children.filter isEntry) types

/-- How a parameter of the type is displayed. -/
def ParameterType.display : ParameterType → String
  | .ellipsis => "..."
  | .type before layers after =>
    joinTokens (tokensOfAll before ++ layersTokens layers ++ tokensOfAll after)

/-- The name, the default value and its sign, which are not part of the type. -/
def omitted (entry : Node) : List Node :=
  let value := entry.field? "default_value"
  ((entry.field? "declarator").bind declaredName?).toList ++ value.toList ++
    if value.isSome then entry.children.filter (·.kind == "=") else []

theorem parameter?_eq {entry : Node} (isParameter : entry.kind ∈ parameterKinds) :
    ∃ parameter, parameter? entry = some parameter ∧
      parameter.display = canonicalText ((omitted entry).map Node.address) entry := by
  have noDots : entry.kind ≠ "..." := by
    intro dots
    simp [dots, parameterKinds] at isParameter
  rw [parameter?, if_neg noDots, if_pos (by simpa [parameterKinds] using isParameter)]
  exact ⟨_, rfl, rfl⟩

theorem parameter?_ellipsis {entry : Node} (dots : entry.kind = "...") :
    ∃ parameter, parameter? entry = some parameter ∧ parameter.display = "..." := by
  rw [parameter?, if_pos dots]
  exact ⟨_, rfl, rfl⟩

theorem parameter?_eq_none {entry : Node} (noEntry : isEntry entry.tree = false) :
    parameter? entry = none := by
  obtain ⟨noDots, noParameter⟩ : entry.kind ≠ "..." ∧ entry.kind ∉ parameterKinds := by
    simpa [isEntry, Node.kind] using noEntry
  rw [parameter?, if_neg noDots, if_neg (by simpa [parameterKinds] using noParameter)]

/-! ### The tokens of an entry -/

/-- The skipped places of an entry. -/
abbrev skipped (entry : Node) : List (List Nat) := (omitted entry).map Node.address

theorem mem_omitted {entry node : Node} (member : node ∈ omitted entry) :
    (∃ declarator, entry.field? "declarator" = some declarator ∧
        declaredName? declarator = some node) ∨
      node ∈ entry.children ∧
        (node.tree.label.field? = some "default_value" ∨ node.tree.label.kind = "=") := by
  rcases List.mem_append.mp member with nameOrValue | sign
  · rcases List.mem_append.mp nameOrValue with name | value
    · exact .inl (Option.bind_eq_some_iff.mp (Option.mem_toList.mp name))
    · have inField := Option.mem_toList.mp value
      exact .inr ⟨Node.mem_children_of_field? inField, .inl (by simpa using List.find?_some inField)⟩
  · split at sign
    · obtain ⟨child, isSign⟩ := List.mem_filter.mp sign
      exact .inr ⟨child, .inr (by simpa [Node.kind] using isSign)⟩
    · cases sign

/-- Whatever is omitted lies in children that are no part of the type. -/
theorem inside_of_mem_omitted {entry node : Node} (member : node ∈ omitted entry) :
    ∃ child ∈ entry.children, ¬ IsSpecifier child.tree ∧ node.Inside child := by
  rcases mem_omitted member with ⟨declarator, inField, found⟩ | ⟨child, role⟩
  · have held : declarator.tree.label.field? = some "declarator" := by
      simpa using List.find?_some inField
    exact ⟨declarator, Node.mem_children_of_field? inField, fun specifier => specifier.1 held,
      inside_of_declaredName? found⟩
  · refine ⟨node, child, fun specifier => ?_, .refl _⟩
    rcases role with held | isSign
    · exact specifier.2.1 held
    · exact specifier.2.2 isSign

theorem address_notMem_skipped (entry : Node) : entry.address ∉ skipped entry := by
  intro member
  obtain ⟨node, isOmitted, same⟩ := List.mem_map.mp member
  obtain ⟨child, inEntry, _, inside⟩ := inside_of_mem_omitted isOmitted
  exact Node.Inside.address_ne inside inEntry same.symm

theorem clear_of_isSpecifier {entry child : Node} (inEntry : child ∈ entry.children)
    (specifier : IsSpecifier child.tree) : Clear (skipped entry) child := by
  intro low below member
  obtain ⟨node, isOmitted, same⟩ := List.mem_map.mp member
  obtain ⟨other, inEntry', noSpecifier, inside⟩ := inside_of_mem_omitted isOmitted
  refine Node.address_ne_of_children inEntry inEntry' (fun here => noSpecifier ?_) below inside
    same.symm
  exact Node.eq_of_mem_children inEntry inEntry' here ▸ specifier

/-- Of the declarator, only the name is skipped. -/
theorem address_eq_of_skipped {entry declarator low : Node}
    (inField : entry.field? "declarator" = some declarator)
    (noSign : declarator.tree.label.kind ≠ "=") (below : low.Inside declarator)
    (member : low.address ∈ skipped entry) :
    ∃ name, declaredName? declarator = some name ∧ low.address = name.address := by
  obtain ⟨node, isOmitted, same⟩ := List.mem_map.mp member
  have inEntry := Node.mem_children_of_field? inField
  have held : declarator.tree.label.field? = some "declarator" := by
    simpa using List.find?_some inField
  rcases mem_omitted isOmitted with ⟨other, inField', found⟩ | ⟨child, role⟩
  · obtain rfl := Option.some.inj (inField'.symm.trans inField)
    exact ⟨node, found, same.symm⟩
  · exfalso
    refine Node.address_ne_of_children inEntry child (fun here => ?_) below (.refl _) same.symm
    obtain rfl := Node.eq_of_mem_children inEntry child here
    rcases role with isValue | isSign
    · simp [held] at isValue
    · exact noSign isSign

theorem tokens_declarator {entry declarator : Node} {named : Bool} {layers : List Layer}
    (inField : entry.field? "declarator" = some declarator)
    (noSign : declarator.tree.label.kind ≠ "=")
    (form : DeclaratorForm declarator.tree named layers) :
    tokens (skipped entry) declarator = layersTokens layers := by
  cases named with
  | true =>
    obtain ⟨name, found, inside, said⟩ := form.named rfl declarator.address
    refine said _ ⟨?_, fun low below member => ?_⟩
    · have isOmitted : name ∈ omitted entry := by simp [omitted, inField, found]
      exact List.mem_map_of_mem isOmitted
    · obtain ⟨name', found', same⟩ := address_eq_of_skipped inField noSign below member
      rw [same, Option.some.inj (found'.symm.trans found)]
  | false =>
    obtain ⟨nameless, said⟩ := form.unnamed rfl
    rw [← said]
    refine tokens_eq_of_clear fun low below member => ?_
    obtain ⟨name, found, _⟩ := address_eq_of_skipped inField noSign below member
    exact absurd (found.symm.trans (nameless _)) (by simp)

theorem tokens_eq_nil_of_skipped {skip : List (List Nat)} {node : Node}
    (member : node.address ∈ skip) : tokens skip node = [] := by
  rw [tokens_eq, if_neg (by simp [isRead, member])]

theorem tokens_eq_nil_of_comment {skip : List (List Nat)} {node : Node}
    (comment : node.tree.label.kind = "comment") : tokens skip node = [] := by
  rw [tokens_eq, if_neg (by simp [isRead, Node.kind, comment])]

/-- A default value leaves no token behind. -/
theorem tokens_default {label : NodeLabel} {address : List Nat} {front standard : List SyntaxTree}
    (default : IsDefault standard)
    (unheld : ∀ tree ∈ front, tree.label.field? ≠ some "default_value") :
    (Node.siblings address front.length standard).flatMap
      (tokens (skipped ⟨.node label (front ++ standard), address⟩)) = [] := by
  cases default with
  | none => rfl
  | @value signs comments value held signed =>
    generalize isEntry : (⟨.node label (front ++ (signs ++ value :: comments)), address⟩ : Node) =
      entry
    have children : entry.children = Node.siblings address 0 front ++
        Node.siblings address front.length (signs ++ value :: comments) := by
      rw [← isEntry, Node.children, SyntaxTree.children_node, siblings_append, Nat.zero_add]
    have inField : entry.field? "default_value" =
        some ⟨value, (front ++ signs).length :: address⟩ := by
      rw [← isEntry, ← List.append_assoc]
      refine field?_split held fun tree member => ?_
      rcases List.mem_append.mp member with early | sign
      · exact unheld tree early
      · exact (signed tree (List.mem_append_left _ sign)).2.2
    -- The signs are skipped because there is a default value, and comments are never read.
    have sign_gone (child : Node) (inEntry : child ∈ entry.children) (isSign : IsSign child.tree) :
        tokens (skipped entry) child = [] := by
      rcases isSign.1 with equals | comment
      · refine tokens_eq_nil_of_skipped (List.mem_map_of_mem ?_)
        simp [omitted, inField, inEntry, Node.kind, equals]
      · exact tokens_eq_nil_of_comment comment
    refine List.flatMap_eq_nil_iff.mpr fun child member => ?_
    have inEntry : child ∈ entry.children := children ▸ List.mem_append_right _ member
    rw [siblings_append, Node.siblings] at member
    rcases List.mem_append.mp member with early | late
    · exact sign_gone child inEntry
        (signed _ (List.mem_append_left _ (Node.tree_mem_of_mem_siblings early)))
    · rcases List.mem_cons.mp late with isValue | late
      · refine tokens_eq_nil_of_skipped (List.mem_map_of_mem ?_)
        have here : child = ⟨value, (front ++ signs).length :: address⟩ := by
          rw [isValue, List.length_append]
        simp [omitted, inField, here]
      · exact sign_gone child inEntry
          (signed _ (List.mem_append_right _ (Node.tree_mem_of_mem_siblings late)))

/-! ### What is displayed -/

theorem isRead_entry {entry : Node} (isParameter : entry.kind ∈ parameterKinds) :
    isRead (skipped entry) entry = true := by
  have noComment : entry.kind ≠ "comment" := by
    intro comment
    simp [comment, parameterKinds] at isParameter
  simp [isRead, address_notMem_skipped entry, noComment]

theorem flatMap_specifiers {entry : Node} {address : List Nat} {first : Nat}
    {trees : List SyntaxTree} (inEntry : Node.siblings address first trees ⊆ entry.children)
    (specifiers : ∀ tree ∈ trees, IsSpecifier tree) :
    (Node.siblings address first trees).flatMap (tokens (skipped entry)) =
      tokensOfAll (allParts trees) :=
  flatMap_siblings_of_clear fun _ member => tokens_eq_of_clear
    (clear_of_isSpecifier (inEntry member) (specifiers _ (Node.tree_mem_of_mem_siblings member)))

section Entry

variable {label : NodeLabel} {front standard : List SyntaxTree} {address : List Nat} {entry : Node}

/-- The tokens of a parameter are those of its type: its default value leaves none. -/
theorem tokens_parameter (same : entry = ⟨.node label (front ++ standard), address⟩)
    (isParameter : label.kind ∈ parameterKinds) (solid : front ≠ []) (default : IsDefault standard)
    (unheld : ∀ tree ∈ front, tree.label.field? ≠ some "default_value") :
    tokens (skipped entry) entry =
        (Node.siblings address 0 front).flatMap (tokens (skipped entry)) ∧
      Node.siblings address 0 front ⊆ entry.children := by
  have children : entry.children =
      Node.siblings address 0 front ++ Node.siblings address front.length standard := by
    rw [same, Node.children, SyntaxTree.children_node, siblings_append, Nat.zero_add]
  have read : isRead (skipped entry) entry = true := isRead_entry (same ▸ isParameter)
  have inner : entry.tree.children ≠ [] := by simp [same, solid]
  have nothing : (Node.siblings address front.length standard).flatMap
      (tokens (skipped entry)) = [] := by
    rw [same]
    exact tokens_default default unheld
  refine ⟨?_, children ▸ List.subset_append_left _ _⟩
  rw [tokens_eq, if_pos read, if_neg inner, children, List.flatMap_append, nothing, List.append_nil]

theorem tokens_typeOnly {before after : List SyntaxTree}
    (same : entry = ⟨.node label (before ++ after ++ standard), address⟩)
    (isParameter : label.kind ∈ parameterKinds) (solid : before ++ after ≠ [])
    (specifiers : ∀ tree ∈ before ++ after, IsSpecifier tree) (default : IsDefault standard) :
    tokens (skipped entry) entry =
      tokensOfAll (allParts before) ++ tokensOfAll (allParts after) := by
  obtain ⟨whole, inEntry⟩ := tokens_parameter same isParameter solid default
    fun tree member => (specifiers tree member).2.1
  rw [whole, flatMap_specifiers inEntry specifiers, allParts_append, tokensOfAll_append]

theorem tokens_declared {before after : List SyntaxTree} {declarator : SyntaxTree} {named : Bool}
    {layers : List Layer}
    (same : entry = ⟨.node label (before ++ declarator :: after ++ standard), address⟩)
    (isParameter : label.kind ∈ parameterKinds)
    (specifiers : ∀ tree ∈ before ++ after, IsSpecifier tree)
    (held : declarator.label.field? = some "declarator") (noSign : declarator.label.kind ≠ "=")
    (form : DeclaratorForm declarator named layers) (default : IsDefault standard) :
    tokens (skipped entry) entry = tokensOfAll (allParts before) ++ layersTokens layers ++
      tokensOfAll (allParts after) := by
  have isEarly (tree) (member : tree ∈ before) : IsSpecifier tree :=
    specifiers tree (List.mem_append_left _ member)
  have isLate (tree) (member : tree ∈ after) : IsSpecifier tree :=
    specifiers tree (List.mem_append_right _ member)
  have unheld : ∀ tree ∈ before ++ declarator :: after,
      tree.label.field? ≠ some "default_value" := by
    intro tree member
    rcases List.mem_append.mp member with early | late
    · exact (isEarly tree early).2.1
    · rcases List.mem_cons.mp late with rfl | late
      · simp [held]
      · exact (isLate tree late).2.1
  have inField : entry.field? "declarator" = some ⟨declarator, before.length :: address⟩ := by
    rw [same, List.append_assoc, List.cons_append]
    exact field?_split held fun tree member => (isEarly tree member).1
  obtain ⟨whole, inEntry⟩ := tokens_parameter same isParameter (by simp) default unheld
  rw [siblings_split, List.append_subset, List.cons_subset] at inEntry
  rw [whole, siblings_split, List.flatMap_append, List.flatMap_cons,
    tokens_declarator inField noSign form, flatMap_specifiers inEntry.1 isEarly,
    flatMap_specifiers inEntry.2.2 isLate, List.append_assoc]

end Entry

/-- A parameter is displayed as its type is. -/
theorem display_of_declaresType {tree : SyntaxTree} {type : ParameterType}
    (declares : DeclaresType tree type) (address : List Nat) :
    ∃ parameter, parameter? ⟨tree, address⟩ = some parameter ∧
      parameter.display = type.display := by
  cases declares with
  | ellipsis dots => exact parameter?_ellipsis dots
  | declarator isParameter specifiers held noSign form default =>
    obtain ⟨parameter, read, displayed⟩ := @parameter?_eq ⟨.node _ _, address⟩ isParameter
    refine ⟨parameter, read, displayed.trans (congrArg joinTokens ?_)⟩
    exact tokens_declared rfl isParameter specifiers held noSign form default
  | typeOnly isParameter solid specifiers default =>
    obtain ⟨parameter, read, displayed⟩ := @parameter?_eq ⟨.node _ _, address⟩ isParameter
    refine ⟨parameter, read, displayed.trans (congrArg joinTokens ?_)⟩
    rw [layersTokens, List.append_nil]
    exact tokens_typeOnly rfl isParameter solid specifiers default

theorem map_display_siblings {types : List ParameterType} {trees : List SyntaxTree}
    (declares : List.Forall₂ DeclaresType (trees.filter isEntry) types) (address : List Nat)
    (first : Nat) : ((Node.siblings address first trees).filterMap parameter?).map
      Parameter.display = types.map ParameterType.display := by
  induction trees generalizing types first with
  | nil =>
    cases declares
    rfl
  | cons tree rest ih =>
    rw [Node.siblings]
    cases entry : isEntry tree with
    | true =>
      rw [List.filter_cons_of_pos entry] at declares
      cases declares with
      | cons head tail =>
        obtain ⟨parameter, read, displayed⟩ :=
          display_of_declaresType head (first :: address)
        rw [List.filterMap_cons_some read, List.map_cons, List.map_cons, displayed, ih tail]
    | false =>
      -- Signs and comments between the parameters declare nothing.
      rw [List.filter_cons_of_neg (by simp [entry])] at declares
      rw [List.filterMap_cons_none (parameter?_eq_none entry), ih declares]

/-- A list is displayed as the types that it declares are; `(void)` declares none. -/
theorem display_of_declaresTypes {list : Node} {types : List ParameterType}
    (declares : DeclaresTypes list.tree types) : (Parameters.ofNode list).display =
      if types.map ParameterType.display = ["void"] then []
      else types.map ParameterType.display := by
  have shown : (Parameters.ofList (list.children.filterMap parameter?)).display =
      types.map ParameterType.display := map_display_siblings declares _ _
  rw [Parameters.ofNode, shown]
  split
  · rfl
  · exact shown

/-- Parameter lists that declare the same types are displayed alike, whatever names and defaults
the parameters have, and whatever the layout and the comments are. So a function has the same
identity wherever it is declared with the same path and name. -/
theorem parameters_identified_by_types {list list' : Node} {types : List ParameterType}
    (declares : DeclaresTypes list.tree types) (declares' : DeclaresTypes list'.tree types) :
    (Parameters.ofNode list).display = (Parameters.ofNode list').display ∧
    ∀ one other : Meeting, one.path = other.path → one.shape.final = other.shape.final →
      one.shape.parameters? = some list → other.shape.parameters? = some list' →
      one.symbol.id = other.symbol.id := by
  have same : (Parameters.ofNode list).display = (Parameters.ofNode list').display := by
    rw [display_of_declaresTypes declares, display_of_declaresTypes declares']
  refine ⟨same, fun one other path name isList isList' => ?_⟩
  -- The id is made of the scope, the name and what is displayed for the parameters.
  obtain ⟨_, _, _, described⟩ := one.meets.described
  obtain ⟨_, _, _, described'⟩ := other.meets.described
  have parameters : one.shape.parameters.display = other.shape.parameters.display := by
    rw [FunctionShape.parameters, FunctionShape.parameters, isList, isList']
    exact same
  have scopes : one.symbol.fact.scope = other.symbol.fact.scope :=
    described.scope_eq.trans (path.trans described'.scope_eq.symm)
  rw [described.id_eq, described'.id_eq, SymbolFact.id, SymbolFact.id, SymbolFact.scopedName,
    SymbolFact.scopedName, scopes, described.display_eq, described'.display_eq, name, parameters]

section Example

open SyntaxTree (under)

private def entryOf (kind : String) (children : List SyntaxTree) : SyntaxTree :=
  .node ⟨kind, none, true, false, false, false, "", 0⟩ children

private def sign (text : String) : SyntaxTree :=
  .node ⟨text, none, false, false, false, false, text, 0⟩ []

private def ofType (name : String) : SyntaxTree := under "type" "primitive_type" name []

private def called (name : String) : SyntaxTree := under "declarator" "identifier" name []

/-- `(int *count, int size = 1)`. -/
private def namedList : SyntaxTree :=
  under "parameters" "parameter_list" "" [sign "(",
    entryOf "parameter_declaration" [ofType "int",
      under "declarator" "pointer_declarator" "" [sign "*", called "count"]],
    sign ",",
    entryOf "optional_parameter_declaration" [ofType "int", called "size", sign "=",
      under "default_value" "number_literal" "1" []],
    sign ")"]

/-- `(int *, int limit)`. -/
private def renamedList : SyntaxTree :=
  under "parameters" "parameter_list" "" [sign "(",
    entryOf "parameter_declaration" [ofType "int",
      under "declarator" "abstract_pointer_declarator" "" [sign "*"]],
    sign ",", entryOf "parameter_declaration" [ofType "int", called "limit"], sign ")"]

private def pointerAndInt : List ParameterType :=
  [.type (allParts [ofType "int"]) [⟨"pointer_declarator", allParts [sign "*"], []⟩] [],
    .type (allParts [ofType "int"]) [] []]

private theorem isSpecifier_int : ∀ tree ∈ [ofType "int"] ++ [], IsSpecifier tree := by
  simp [IsSpecifier, ofType, under]

private theorem namedList_declares : DeclaresTypes namedList pointerAndInt := by
  have signed : ∀ tree ∈ [sign "="] ++ [], IsSign tree := by simp [IsSign, sign]
  have pointer : DeclaratorForm
      (under "declarator" "pointer_declarator" "" ([sign "*"] ++ called "count" :: [])) true
      [⟨"pointer_declarator", allParts [sign "*"], allParts []⟩] :=
    .around (by decide) (.field rfl (by simp [sign, SyntaxTree.label])) (.name (by decide))
  refine .cons ?_ (.cons ?_ .nil)
  · exact .declarator (by decide) isSpecifier_int rfl (by decide) pointer .none
  · exact .declarator (by decide) isSpecifier_int rfl (by decide) (.name (by decide))
      (.value rfl signed)

private theorem renamedList_declares : DeclaresTypes renamedList pointerAndInt := by
  have pointer : DeclaratorForm
      (under "declarator" "abstract_pointer_declarator" "" ([sign "*"] ++ [])) false
      [⟨"pointer_declarator", allParts [sign "*"], allParts []⟩] :=
    .abstractEnd (by decide) (by simp)
  refine .cons ?_ (.cons ?_ .nil)
  · exact .declarator (by decide) isSpecifier_int rfl (by decide) pointer .none
  · exact .declarator (by decide) isSpecifier_int rfl (by decide) (.name (by decide)) .none

private def onDeclarator (list : SyntaxTree) : SyntaxTree :=
  under "declarator" "function_declarator" "" [called "on", list]

private def onDeclaration : SyntaxTree :=
  entryOf "declaration" [ofType "void", onDeclarator namedList, sign ";"]

private def onDefinition : SyntaxTree :=
  entryOf "function_definition" [ofType "void", onDeclarator renamedList,
    under "body" "compound_statement" "" [sign "\x7b", sign "\x7d"]]

/-- `void on(int *count, int size = 1); void on(int *, int limit) {}`. -/
private def onFile : SourceFile :=
  ⟨⟨"/w/m.cpp"⟩, "", entryOf "translation_unit" [onDeclaration, onDefinition], false⟩

private def onRef : FileRef := ⟨0, ⟨"/w/m.cpp"⟩, ⟨"/w/m.cpp"⟩⟩

private def onSites : List Site :=
  [.declaration ⟨onDeclaration, [0]⟩ ⟨[], none⟩, .functionDefinition ⟨onDefinition, [1]⟩ ⟨[], none⟩]

private theorem walk_on :
    walk [onFile] ⟨"/w/m.cpp"⟩ = onSites.map (onRef, ·) := by
  have top : (Node.ofTree onFile.tree).namedChildren =
      [⟨onDeclaration, [0]⟩, ⟨onDefinition, [1]⟩] := rfl
  have declaration : sites ⟨[], none⟩ ⟨onDeclaration, [0]⟩ =
      [.declaration ⟨onDeclaration, [0]⟩ ⟨[], none⟩] := by
    refine sites_declaration (.inl rfl) (fun type found => ?_) _
    obtain rfl : (⟨ofType "void", [0, 0]⟩ : Node) = type := Option.some.inj found
    decide
  have definition : sites ⟨[], none⟩ ⟨onDefinition, [1]⟩ =
      [.functionDefinition ⟨onDefinition, [1]⟩ ⟨[], none⟩] :=
    sites_functionDefinition rfl _
  have listed : onFile.sites = onSites := by
    rw [SourceFile.sites, sites_eq, if_pos (by decide), top]
    simp [declaration, definition, onSites]
  rw [walk, List.zipIdx_singleton, List.flatMap_singleton]
  dsimp only
  rw [listed]
  rfl

private def onSymbol (position : Nat) : Symbol :=
  ((SymbolTable.ofFiles [onFile] ⟨"/w/m.cpp"⟩).symbols[position]?).getD default

private def onShape (list : SyntaxTree) (address : List Nat) : FunctionShape :=
  ⟨⟨called "on", 0 :: address⟩, some ⟨list, 1 :: address⟩, []⟩

private theorem meets_onDeclaration : Meets [onFile] ⟨"/w/m.cpp"⟩ [] ⟨[], none⟩
    (onShape namedList [1, 0]) (onSymbol 0) := by
  have declares : functionShape? ⟨onDeclarator namedList, [1, 0]⟩ =
      some (onShape namedList [1, 0]) := by
    cbv
  have split : (⟨onDeclaration, [0]⟩ : Node).fieldChildren "declarator" =
      [] ++ ⟨onDeclarator namedList, [1, 0]⟩ :: [] := rfl
  have met : walk [onFile] ⟨"/w/m.cpp"⟩ = [] ++
      (onRef, .declaration ⟨onDeclaration, [0]⟩ ⟨[], none⟩) ::
        [(onRef, .functionDefinition ⟨onDefinition, [1]⟩ ⟨[], none⟩)] := walk_on
  exact .declarator met split declares (by decide +kernel) (by decide +kernel)

private theorem meets_onDefinition : Meets [onFile] ⟨"/w/m.cpp"⟩
    [.declaration ⟨onDeclaration, [0]⟩ ⟨[], none⟩] ⟨[], none⟩
    (onShape renamedList [1, 1]) (onSymbol 1) := by
  have declares : ((⟨onDefinition, [1]⟩ : Node).field? "declarator").bind functionShape? =
      some (onShape renamedList [1, 1]) := by
    cbv
  have met : walk [onFile] ⟨"/w/m.cpp"⟩ =
      [(onRef, .declaration ⟨onDeclaration, [0]⟩ ⟨[], none⟩)] ++
        (onRef, .functionDefinition ⟨onDefinition, [1]⟩ ⟨[], none⟩) :: [] := walk_on
  exact .definition met declares (by decide +kernel) (by decide +kernel)

private def declaredOn : Meeting := ⟨_, _, _, _, _, _, meets_onDeclaration⟩

private def definedOn : Meeting := ⟨_, _, _, _, _, _, meets_onDefinition⟩

/-- The parameters are named, renamed or not named, and one of them has a default value. -/
theorem renamed_parameters_identified :
    (Parameters.ofNode ⟨namedList, [1, 1, 0]⟩).display = ["int *", "int"] ∧
    (Parameters.ofNode ⟨namedList, [1, 1, 0]⟩).display =
      (Parameters.ofNode ⟨renamedList, [1, 1, 1]⟩).display ∧
    declaredOn.symbol.id = definedOn.symbol.id := by
  obtain ⟨displayed, identified⟩ := @parameters_identified_by_types ⟨namedList, [1, 1, 0]⟩
    ⟨renamedList, [1, 1, 1]⟩ pointerAndInt namedList_declares renamedList_declares
  refine ⟨by decide +kernel, displayed, identified declaredOn definedOn ?_ ?_ rfl rfl⟩
  · decide +kernel
  · decide +kernel

/-- `(void (*)(int))`, with a name for the parameter of the function or without. -/
private def callbackList (names : List SyntaxTree) : SyntaxTree :=
  under "parameters" "parameter_list" "" [sign "(",
    entryOf "parameter_declaration" [ofType "void",
      under "declarator" "function_declarator" "" [
        under "declarator" "parenthesized_declarator" "" [sign "(",
          entryOf "pointer_declarator" [sign "*", called "callback"], sign ")"],
        under "parameters" "parameter_list" "" [sign "(",
          entryOf "parameter_declaration" (ofType "int" :: names), sign ")"]]],
    sign ")"]

/-- A name in the parameter list of a function pointer is displayed, so it tells apart what the
same types are declared for. -/
theorem callback_name_displayed :
    (Parameters.ofNode ⟨callbackList [called "value"], []⟩).display = ["void (*)(int value)"] ∧
    (Parameters.ofNode ⟨callbackList [], []⟩).display = ["void (*)(int)"] := by
  decide +kernel

end Example

end CallGraph.Cpp
