import CallGraph.Cpp.Declaration
import CallGraph.Proofs.Syntax.Inside

/-!
# The places that declare something

The walk over a file lists the places that declare something (`sites`). Each function definition
and each declarator takes up a part of the tree (`Site.Holds`), and no part is taken up twice
(`pairwise_sites`): the walk goes on below a namespace, a class or the type of a declaration, never
below a function or a declarator.
-/
namespace CallGraph.Cpp

/-- The node lies in what a site takes up: all of a function definition, and the declarators of
another declaration. -/
def Site.Holds : Site → Node → Prop
  | .openNamespace _, _ => False
  | .openClass _ _, _ => False
  | .functionDefinition whole _, node => node.Inside whole
  | .declaration whole _, node =>
    ∃ declarator ∈ whole.fieldChildren "declarator", node.Inside declarator

theorem Site.Holds.below {site : Site} {node low : Node} (held : site.Holds node)
    (below : low.Inside node) : site.Holds low := by
  cases site with
  | openNamespace names => exact held
  | openClass qualified bases => exact held
  | functionDefinition whole context => exact below.trans held
  | declaration whole context =>
    obtain ⟨declarator, member, inside⟩ := held
    exact ⟨declarator, member, below.trans inside⟩

/-- No place is taken up by both. -/
def Site.Apart (one other : Site) : Prop :=
  ∀ node node' : Node, one.Holds node → other.Holds node' → node.address ≠ node'.address

instance : Std.Symm Site.Apart :=
  ⟨fun _ _ apart node node' held held' => (apart node' node held' held).symm⟩

theorem inside_of_mem_bodyMembers {node member : Node} (found : member ∈ bodyMembers node) :
    member.Inside node := by
  unfold bodyMembers at found
  split at found
  · rename_i body inField
    exact (Node.Inside.of_mem_children (Node.namedChildren_subset found)).trans (.of_field? inField)
  · simp at found

theorem bodyMembers_sublist (node : Node) :
    ∃ holder : Node, (bodyMembers node).Sublist holder.children := by
  unfold bodyMembers
  split
  · exact ⟨_, List.filter_sublist⟩
  · exact ⟨node, List.nil_sublist _⟩

theorem sites_eq (context : Context) (node : Node) : sites context node =
    if isTransparent node then node.namedChildren.flatMap (sites context)
    else if node.kind = "namespace_definition" then
      .openNamespace (namespaceNames context.scope (namespaceParts node)) ::
        (bodyMembers node).flatMap (sites ⟨context.scope ++ namespaceParts node, none⟩)
    else if isClassSpecifier node then
      match node.field? "name" with
      | none => []
      | some name =>
        let scope := context.scope ++ qualifiedParts name
        .openClass (joinScope scope) (baseTypes context.scope node) ::
          (bodyMembers node).flatMap (sites ⟨scope, some (joinScope scope)⟩)
    else if node.kind = "function_definition" then [.functionDefinition node context]
    else if node.kind = "declaration" ∨ node.kind = "field_declaration" then
      .declaration node context ::
        match node.field? "type" with
        | some type => if isClassSpecifier type then sites context type else []
        | none => []
    else [] := by
  rw [sites]
  simp only [List.flatMap_subtype, List.unattach_attach]
  -- All that is left is the type of a declaration, with and without a name for having found it.
  congr 6
  split <;> simp_all

theorem mem_sites_of_transparent {context : Context} {node child : Node} {site : Site}
    (transparent : isTransparent node = true) (member : child ∈ node.namedChildren)
    (met : site ∈ sites context child) : site ∈ sites context node := by
  rw [sites_eq, if_pos transparent]
  exact List.mem_flatMap.mpr ⟨child, member, met⟩

theorem sites_functionDefinition {node : Node} (isFunction : node.kind = "function_definition")
    (context : Context) : sites context node = [.functionDefinition node context] := by
  have solid : ¬ isTransparent node = true := by simp [isTransparent, isFunction]
  have noClass : ¬ isClassSpecifier node = true := by simp [isClassSpecifier, isFunction]
  rw [sites_eq, if_neg solid, if_neg (by simp [isFunction]), if_neg noClass, if_pos isFunction]

/-- The declaration of what has a type from elsewhere, or no type. -/
theorem sites_declaration {node : Node}
    (isDeclaration : node.kind = "declaration" ∨ node.kind = "field_declaration")
    (noClass : ∀ type, node.field? "type" = some type → isClassSpecifier type = false)
    (context : Context) : sites context node = [.declaration node context] := by
  have solid : ¬ isTransparent node = true := by
    rcases isDeclaration with kind | kind <;> simp [isTransparent, kind]
  have noSpecifier : ¬ isClassSpecifier node = true := by
    rcases isDeclaration with kind | kind <;> simp [isClassSpecifier, kind]
  rw [sites_eq, if_neg solid, if_neg (by rcases isDeclaration with kind | kind <;> simp [kind]),
    if_neg noSpecifier, if_neg (by rcases isDeclaration with kind | kind <;> simp [kind]),
    if_pos isDeclaration]
  split
  · rename_i type found
    rw [noClass type found, if_neg (by simp)]
  · rfl

theorem inside_of_holds {context : Context} {node low : Node} {site : Site}
    (met : site ∈ sites context node) (held : site.Holds low) : low.Inside node := by
  induction context, node using sites.induct with
  | case1 context node transparent ih =>
    rw [sites_eq, if_pos transparent] at met
    obtain ⟨child, member, below⟩ := List.mem_flatMap.mp met
    exact (ih ⟨child, member⟩ below).trans (.of_mem_children (Node.namedChildren_subset member))
  | case2 context node solid isNamespace parts inner ih =>
    rw [sites_eq, if_neg solid, if_pos isNamespace, List.mem_cons] at met
    rcases met with rfl | below
    · exact held.elim
    · obtain ⟨child, member, below⟩ := List.mem_flatMap.mp below
      exact (ih ⟨child, member⟩ below).trans (inside_of_mem_bodyMembers member)
  | case3 context node solid noNamespace isClass unnamed =>
    rw [sites_eq, if_neg solid, if_neg noNamespace, if_pos isClass, unnamed] at met
    simp at met
  | case4 context node solid noNamespace isClass name named scope qualified inner ih =>
    rw [sites_eq, if_neg solid, if_neg noNamespace, if_pos isClass, named] at met
    rcases List.mem_cons.mp met with rfl | below
    · exact held.elim
    · obtain ⟨child, member, below⟩ := List.mem_flatMap.mp below
      exact (ih ⟨child, member⟩ below).trans (inside_of_mem_bodyMembers member)
  | case5 context node solid noNamespace noClass isFunction =>
    rw [sites_eq, if_neg solid, if_neg noNamespace, if_neg noClass, if_pos isFunction] at met
    obtain rfl := List.mem_singleton.mp met
    exact held
  | case6 context node solid noNamespace noClass noFunction isDeclaration ih =>
    rw [sites_eq, if_neg solid, if_neg noNamespace, if_neg noClass, if_neg noFunction,
      if_pos isDeclaration] at met
    rcases List.mem_cons.mp met with rfl | below
    · obtain ⟨declarator, member, inside⟩ := held
      exact inside.trans (.of_mem_children (List.mem_filter.mp member).1)
    · split at below
      · rename_i type inField
        split at below
        · exact (ih type inField below).trans (.of_field? inField)
        · simp at below
      · simp at below
  | case7 context node solid noNamespace noClass noFunction noDeclaration =>
    rw [sites_eq, if_neg solid, if_neg noNamespace, if_neg noClass, if_neg noFunction,
      if_neg noDeclaration] at met
    simp at met

/-- What the walk lists below different children of a node lies apart. -/
theorem pairwise_flatMap_sites {context : Context} {node : Node} {members : List Node}
    (children : members.Sublist node.children)
    (apart : ∀ member ∈ members, (sites context member).Pairwise Site.Apart) :
    (members.flatMap (sites context)).Pairwise Site.Apart := by
  have distinct := (Node.pairwise_children node).sublist children
  refine List.pairwise_flatMap.mpr ⟨apart, distinct.imp_of_mem ?_⟩
  intro first second one other different site met site' met' low low' held held'
  exact Node.address_ne_of_children (children.mem one) (children.mem other) different
    (inside_of_holds met held) (inside_of_holds met' held')

/-- No two places that declare something overlap. -/
theorem pairwise_sites (context : Context) (node : Node) :
    (sites context node).Pairwise Site.Apart := by
  induction context, node using sites.induct with
  | case1 context node transparent ih =>
    rw [sites_eq, if_pos transparent]
    exact pairwise_flatMap_sites List.filter_sublist fun child member => ih ⟨child, member⟩
  | case2 context node solid isNamespace parts inner ih =>
    rw [sites_eq, if_neg solid, if_pos isNamespace]
    obtain ⟨holder, children⟩ := bodyMembers_sublist node
    refine .cons (fun _ _ _ _ held => held.elim) ?_
    exact pairwise_flatMap_sites children fun child member => ih ⟨child, member⟩
  | case3 context node solid noNamespace isClass unnamed =>
    rw [sites_eq, if_neg solid, if_neg noNamespace, if_pos isClass, unnamed]
    exact .nil
  | case4 context node solid noNamespace isClass name named scope qualified inner ih =>
    rw [sites_eq, if_neg solid, if_neg noNamespace, if_pos isClass, named]
    obtain ⟨holder, children⟩ := bodyMembers_sublist node
    refine .cons (fun _ _ _ _ held => held.elim) ?_
    exact pairwise_flatMap_sites children fun child member => ih ⟨child, member⟩
  | case5 context node solid noNamespace noClass isFunction =>
    rw [sites_eq, if_neg solid, if_neg noNamespace, if_neg noClass, if_pos isFunction]
    exact List.pairwise_singleton _ _
  | case6 context node solid noNamespace noClass noFunction isDeclaration ih =>
    rw [sites_eq, if_neg solid, if_neg noNamespace, if_neg noClass, if_neg noFunction,
      if_pos isDeclaration]
    cases inField : node.field? "type" with
    | none => exact List.pairwise_singleton _ _
    | some type =>
      dsimp only
      split
      · refine .cons (fun site met low low' held held' => ?_) (ih type inField)
        -- The type and a declarator are held under different fields.
        obtain ⟨declarator, member, inside⟩ := held
        obtain ⟨child, isDeclarator⟩ := List.mem_filter.mp member
        have isType := List.find?_some inField
        refine Node.address_ne_of_children child (Node.mem_children_of_field? inField) ?_ inside
          (inside_of_holds met held')
        intro same
        obtain rfl := Node.eq_of_mem_children child (Node.mem_children_of_field? inField) same
        simp_all
      · exact List.pairwise_singleton _ _
  | case7 context node solid noNamespace noClass noFunction noDeclaration =>
    rw [sites_eq, if_neg solid, if_neg noNamespace, if_neg noClass, if_neg noFunction,
      if_neg noDeclaration]
    exact .nil

/-- A place is taken up by one site only. -/
theorem eq_of_holds {context : Context} {root node node' : Node} {site site' : Site}
    (met : site ∈ sites context root) (met' : site' ∈ sites context root) (held : site.Holds node)
    (held' : site'.Holds node') (same : node.address = node'.address) : site = site' := by
  by_contra different
  exact (pairwise_sites context root).forall met met' different node node' held held' same

end CallGraph.Cpp
