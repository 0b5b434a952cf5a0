import CallGraph.Proofs.Cpp.Bodies
import Mathlib.Data.List.Nodup

/-!
# Which scan examines a call

Main result: `call_site_examined`. Each call, `new` and `delete` in the body of a function is
examined by one scan, the one of the innermost body around it among that of the function and those
of the lambdas that variables in it hold. What lies in such a lambda but not in its body (a capture,
a default argument) is examined by none.

A scan leaves out the lambdas that have a body of their own. So it visits a node unless such a
lambda lies between the two, and no two scans visit the same node (`pairwise_separate`).
-/
namespace CallGraph.Cpp

/-- The scan of the body at a place visits the node. -/
def SymbolTable.Visits (table : SymbolTable) (place : Nat × Node) (node : Node) : Prop :=
  node ∈ place.2.visit (fun _ => true) fun between =>
    between.isMeaningful && !table.isNamedLambda place.1 between

/-- No node is visited from both places. -/
def SymbolTable.Separate (table : SymbolTable) (one other : Nat × Node) : Prop :=
  ∀ node node' : Node, table.Visits one node → table.Visits other node' → one.1 = other.1 →
    node.address ≠ node'.address

namespace SymbolTable

variable {table : SymbolTable} {place : Nat × Node} {node : Node}

theorem Visits.inside (visits : table.Visits place node) : node.Inside place.2 :=
  Node.inside_of_mem_visit visits

variable (place) in
/-- No scan gets past a lambda that has a body of its own. -/
theorem not_visits_of_cut {lambda : Node} (named : table.isNamedLambda place.1 lambda = true)
    (below : lambda.Inside place.2) (different : lambda ≠ place.2) (inside : node.Inside lambda) :
    ¬ table.Visits place node := by
  intro visits
  have kept := (Node.mem_visit_iff.mp visits).2 lambda below inside different
  rw [named, Bool.not_true, Bool.and_false] at kept
  cases kept

end SymbolTable

/-! ### No node is visited twice -/

theorem SourceFile.inside_root {source : SourceFile} {site : Site} {node : Node}
    (met : site ∈ source.sites) (held : site.Holds node) :
    node.Inside (.ofTree source.tree) :=
  inside_of_holds met held

section Unit

variable {files : List SourceFile} {unit : Path} {source : SourceFile} {index : Nat} {site : Site}

theorem isNamedLambda_of_mem_lambdas (loaded : (source, index) ∈ files.zipIdx)
    (met : site ∈ source.sites) {lambda : NamedLambda} (held : lambda ∈ site.lambdas) :
    (SymbolTable.ofFiles files unit).isNamedLambda index lambda.node = true :=
  SymbolTable.isNamedLambda_iff.mpr ⟨source, loaded, site, met, lambda, held, rfl⟩

/-- A lambda is never the body of something. -/
theorem ne_of_mem_lambdas {lambda : NamedLambda} (held : lambda ∈ site.lambdas) {site' : Site}
    {body : Node} (recorded : body ∈ site'.bodies) : lambda.node ≠ body := by
  intro same
  have isValue := Site.fieldName_of_mem_lambdas held
  rw [same, Site.fieldName_of_mem_bodies recorded] at isValue
  simp at isValue

/-- What lies in a lambda inside of another one is not visited by the scan of the outer one. -/
theorem not_visits_of_inner (loaded : (source, index) ∈ files.zipIdx) (met : site ∈ source.sites)
    {inner outer : NamedLambda} (inSite : inner ∈ site.lambdas) (inSite' : outer ∈ site.lambdas)
    (below : inner.node.Inside outer.node) (different : inner.node.address ≠ outer.node.address)
    {body node : Node} (isBody : outer.node.field? "body" = some body)
    (inside : node.Inside inner.node) :
    ¬ (SymbolTable.ofFiles files unit).Visits (index, body) node := by
  intro visits
  have child := Node.mem_children_of_field? isBody
  have deeper : inner.node.Inside body :=
    below.of_child (fun same => different (same ▸ rfl)) child inside visits.inside
  have recorded : body ∈ site.bodies := Site.mem_bodies.mpr (.inr ⟨outer, inSite', isBody⟩)
  exact SymbolTable.not_visits_of_cut (index, body)
    (isNamedLambda_of_mem_lambdas loaded met inSite) deeper (ne_of_mem_lambdas inSite recorded)
    inside visits

theorem separate_lambdas (loaded : (source, index) ∈ files.zipIdx) (met : site ∈ source.sites)
    {one other : NamedLambda} (inSite : one ∈ site.lambdas) (inSite' : other ∈ site.lambdas)
    (different : one.node.address ≠ other.node.address) {body body' : Node}
    (isBody : one.node.field? "body" = some body) (isBody' : other.node.field? "body" = some body') :
    (SymbolTable.ofFiles files unit).Separate (index, body) (index, body') := by
  intro node node' visits visits' _ same
  have above := source.inside_root met (Site.holds_of_mem_lambdas inSite)
  have above' := source.inside_root met (Site.holds_of_mem_lambdas inSite')
  have inside : node.Inside one.node := visits.inside.trans (.of_field? isBody)
  have inside' : node'.Inside other.node := visits'.inside.trans (.of_field? isBody')
  obtain rfl := (inside.trans above).eq_of_address (inside'.trans above') same
  rcases above.total above' inside inside' with deeper | higher
  · exact not_visits_of_inner loaded met inSite inSite' deeper different isBody' inside visits'
  · exact not_visits_of_inner loaded met inSite' inSite higher different.symm isBody inside' visits

theorem separate_function (loaded : (source, index) ∈ files.zipIdx) (met : site ∈ source.sites)
    {root : Node} (own : site.functionBody? = some root) {lambda : NamedLambda}
    (inSite : lambda ∈ site.lambdas) {body : Node}
    (isBody : lambda.node.field? "body" = some body) :
    (SymbolTable.ofFiles files unit).Separate (index, root) (index, body) := by
  intro node node' visits visits' _ same
  have recorded : root ∈ site.bodies := Site.mem_bodies.mpr (.inl own)
  have below : lambda.node.Inside root := by
    rw [Site.lambdas_of_functionBody? own] at inSite
    obtain ⟨declarator, inside, held⟩ := exists_of_mem_lambdasIn inSite
    exact (inside_of_namedLambda? held).trans inside
  have above := source.inside_root met (Site.holds_of_mem_bodies recorded)
  have inside' : node'.Inside lambda.node := visits'.inside.trans (.of_field? isBody)
  obtain rfl := (visits.inside.trans above).eq_of_address
    (inside'.trans (below.trans above)) same
  exact SymbolTable.not_visits_of_cut (index, root)
    (isNamedLambda_of_mem_lambdas loaded met inSite) below
    (ne_of_mem_lambdas inSite recorded) inside' visits

theorem pairwise_separate_bodies (loaded : (source, index) ∈ files.zipIdx)
    (met : site ∈ source.sites) : site.bodies.Pairwise fun one other =>
      (SymbolTable.ofFiles files unit).Separate (index, one) (index, other) := by
  refine List.pairwise_append.mpr ⟨?_, ?_, ?_⟩
  · cases site.functionBody? <;> simp
  · refine List.pairwise_filterMap.mpr (site.pairwise_lambdas.imp_of_mem ?_)
    intro one other inSite inSite' different body isBody body' isBody'
    exact separate_lambdas loaded met inSite inSite' different isBody isBody'
  · intro root own body recorded
    obtain ⟨lambda, inSite, isBody⟩ := mem_lambdaBodies.mp recorded
    exact separate_function loaded met (Option.mem_toList.mp own) inSite isBody

/-- There is one file at a position. -/
theorem source_eq_of_index {source' : SourceFile} (loaded : (source, index) ∈ files.zipIdx)
    (loaded' : (source', index) ∈ files.zipIdx) : source = source' :=
  Option.some.inj <| (List.mk_mem_zipIdx_iff_getElem?.mp loaded).symm.trans
    (List.mk_mem_zipIdx_iff_getElem?.mp loaded')

theorem pairwise_zipIdx (files : List SourceFile) :
    files.zipIdx.Pairwise fun one other => one.2 ≠ other.2 := by
  have distinct : (files.zipIdx.map Prod.snd).Nodup := by
    rw [List.zipIdx_map_snd]
    exact List.nodup_range'
  exact List.pairwise_map.mp distinct

/-- What the sites of a unit contribute is pairwise related if it is within each site, between
sites that take up different parts of a file, and between files. -/
theorem pairwise_contributions {α : Type} (contribution : Nat → Site → List α)
    {related : α → α → Prop}
    (within : ∀ source index, (source, index) ∈ files.zipIdx → ∀ site ∈ source.sites,
      (contribution index site).Pairwise related)
    (betweenSites : ∀ index one other, Site.Apart one other →
      ∀ item ∈ contribution index one, ∀ item' ∈ contribution index other, related item item')
    (betweenFiles : ∀ index index', index ≠ index' → ∀ one other,
      ∀ item ∈ contribution index one, ∀ item' ∈ contribution index' other, related item item') :
    (files.zipIdx.flatMap fun (source, index) =>
      source.sites.flatMap (contribution index)).Pairwise related := by
  refine List.pairwise_flatMap.mpr ⟨fun ⟨source, index⟩ loaded => ?_, ?_⟩
  · refine List.pairwise_flatMap.mpr ⟨within source index loaded, ?_⟩
    exact (pairwise_sites _ _).imp fun apart => betweenSites index _ _ apart
  · refine (pairwise_zipIdx files).imp ?_
    rintro ⟨source, index⟩ ⟨source', index'⟩ different item listed item' listed'
    obtain ⟨site, _, member⟩ := List.mem_flatMap.mp listed
    obtain ⟨site', _, member'⟩ := List.mem_flatMap.mp listed'
    exact betweenFiles index index' different site site' item member item' member'

/-- The scans of a unit have no node in common. -/
theorem pairwise_separate (files : List SourceFile) (unit : Path) :
    (SymbolTable.ofFiles files unit).bodies.Pairwise fun one other =>
      (SymbolTable.ofFiles files unit).Separate one.place other.place := by
  rw [← List.pairwise_map (f := Body.place), SymbolTable.map_place_bodies]
  refine pairwise_contributions (fun index site => site.bodies.map (index, ·)) ?_ ?_ ?_
  · intro source index loaded site met
    exact List.pairwise_map.mpr (pairwise_separate_bodies loaded met)
  · -- Different sites take up different parts of the tree.
    intro index one other apart place listed place' listed' node node' visits visits' _
    obtain ⟨body, recorded, rfl⟩ := List.mem_map.mp listed
    obtain ⟨body', recorded', rfl⟩ := List.mem_map.mp listed'
    exact apart node node' ((Site.holds_of_mem_bodies recorded).below visits.inside)
      ((Site.holds_of_mem_bodies recorded').below visits'.inside)
  · intro index index' different one other place listed place' listed' node node' _ _ same
    obtain ⟨body, _, rfl⟩ := List.mem_map.mp listed
    obtain ⟨body', _, rfl⟩ := List.mem_map.mp listed'
    exact absurd same different

end Unit

/-! ### The scans that visit a node -/

/-- The places that the scan of a body visits. -/
def Body.visited (table : SymbolTable) (body : Body) : List NodeKey :=
  (body.ownNodes table).map fun node => ⟨body.file, node.address⟩

/-- The scans that visit a place, with one entry for each visit. -/
def SymbolTable.scansOf (table : SymbolTable) (key : NodeKey) : List Body :=
  table.bodies.flatMap fun body => List.replicate ((body.visited table).count key) body

theorem flatMap_replicate_eq_singleton {α : Type} {items : List α} {count : α → Nat} {item : α}
    (member : item ∈ items) (once : count item = 1)
    (apart : items.Pairwise fun one other => ¬ (0 < count one ∧ 0 < count other)) :
    (items.flatMap fun item => List.replicate (count item) item) = [item] := by
  induction items with
  | nil => simp at member
  | cons first rest ih =>
    obtain ⟨apartFirst, apartRest⟩ := List.pairwise_cons.mp apart
    rw [List.flatMap_cons]
    rcases List.mem_cons.mp member with rfl | later
    · have others : (rest.flatMap fun item => List.replicate (count item) item) = [] := by
        refine List.flatMap_eq_nil_iff.mpr fun other listed => ?_
        have none : count other = 0 := by
          have := apartFirst other listed
          omega
        rw [none, List.replicate_zero]
      rw [once, others]
      rfl
    · have none : count first = 0 := by
        have := apartFirst item later
        omega
      rw [none, List.replicate_zero, List.nil_append]
      exact ih later apartRest

namespace SymbolTable

variable {files : List SourceFile} {unit : Path} {body : Body} {key : NodeKey} {node : Node}

theorem exists_site_of_mem_bodies (member : body ∈ (ofFiles files unit).bodies) :
    ∃ source, (source, body.file) ∈ files.zipIdx ∧
      ∃ site ∈ source.sites, body.node ∈ site.bodies := by
  have listed := List.mem_map_of_mem (f := Body.place) member
  rw [map_place_bodies] at listed
  obtain ⟨⟨source, index⟩, loaded, listed⟩ := List.mem_flatMap.mp listed
  obtain ⟨site, met, listed⟩ := List.mem_flatMap.mp listed
  obtain ⟨node, recorded, same⟩ := List.mem_map.mp listed
  obtain ⟨rfl, rfl⟩ := Prod.mk.inj same
  exact ⟨source, loaded, site, met, recorded⟩

variable (unit) in
theorem exists_body_of_mem_bodies {source : SourceFile} {index : Nat} {site : Site}
    (loaded : (source, index) ∈ files.zipIdx) (met : site ∈ source.sites)
    (recorded : node ∈ site.bodies) :
    ∃ body ∈ (ofFiles files unit).bodies, body.file = index ∧ body.node = node := by
  have listed : (index, node) ∈ (ofFiles files unit).bodies.map Body.place := by
    rw [map_place_bodies]
    exact List.mem_flatMap.mpr ⟨_, loaded, List.mem_flatMap.mpr
      ⟨site, met, List.mem_map_of_mem recorded⟩⟩
  obtain ⟨body, member, same⟩ := List.mem_map.mp listed
  exact ⟨body, member, congrArg Prod.fst same, congrArg Prod.snd same⟩

/-- The start of a scan is no lambda, so the scan is not cut off at once. -/
theorem ownNodes_eq (member : body ∈ (ofFiles files unit).bodies) :
    body.ownNodes (ofFiles files unit) = body.node.visit (fun _ => true) fun between =>
      between.isMeaningful && !(ofFiles files unit).isNamedLambda body.file between := by
  rw [Body.ownNodes, if_neg]
  intro named
  obtain ⟨source, loaded, site, met, recorded⟩ := exists_site_of_mem_bodies member
  obtain ⟨source', loaded', site', met', lambda, held, here⟩ := isNamedLambda_iff.mp named
  obtain rfl := source_eq_of_index loaded' loaded
  refine ne_of_mem_lambdas held recorded ?_
  exact (source'.inside_root met' (Site.holds_of_mem_lambdas held)).eq_of_address
    (source'.inside_root met (Site.holds_of_mem_bodies recorded)) here

theorem mem_visited_iff (member : body ∈ (ofFiles files unit).bodies) :
    key ∈ body.visited (ofFiles files unit) ↔
      ∃ node, (ofFiles files unit).Visits body.place node ∧ ⟨body.file, node.address⟩ = key := by
  rw [Body.visited, ownNodes_eq member]
  exact List.mem_map

theorem nodup_visited (body : Body) (table : SymbolTable) : (body.visited table).Nodup := by
  refine List.pairwise_map.mpr ?_
  have distinct : (body.ownNodes table).Pairwise fun one other => one.address ≠ other.address := by
    unfold Body.ownNodes
    split
    · exact .nil
    · exact Node.pairwise_visit _ _ _
  exact distinct.imp fun different same => different (NodeKey.mk.inj same).2

theorem scansOf_eq_nil (unvisited : ∀ body ∈ (ofFiles files unit).bodies, ∀ node,
    (ofFiles files unit).Visits body.place node → (⟨body.file, node.address⟩ : NodeKey) ≠ key) :
    (ofFiles files unit).scansOf key = [] := by
  refine List.flatMap_eq_nil_iff.mpr fun body member => ?_
  rw [List.count_eq_zero_of_not_mem, List.replicate_zero]
  intro visited
  obtain ⟨node, visits, same⟩ := (mem_visited_iff member).mp visited
  exact unvisited body member node visits same

/-- A scan that visits a node is the only one, and visits it once. -/
theorem scansOf_eq_singleton (member : body ∈ (ofFiles files unit).bodies)
    (visits : (ofFiles files unit).Visits body.place node) :
    (ofFiles files unit).scansOf ⟨body.file, node.address⟩ = [body] := by
  refine flatMap_replicate_eq_singleton member ?_ ?_
  · exact List.count_eq_one_of_mem (nodup_visited body _)
      ((mem_visited_iff member).mpr ⟨node, visits, rfl⟩)
  · refine (pairwise_separate files unit).imp_of_mem ?_
    rintro one other inTable inTable' separate ⟨visited, visited'⟩
    obtain ⟨low, visits, same⟩ :=
      (mem_visited_iff inTable).mp (List.count_pos_iff.mp visited)
    obtain ⟨low', visits', same'⟩ :=
      (mem_visited_iff inTable').mp (List.count_pos_iff.mp visited')
    obtain ⟨sameFile, sameAddress⟩ := NodeKey.mk.inj (same.trans same'.symm)
    exact separate low low' visits visits' sameFile sameAddress

end SymbolTable

/-! ### The scan of the innermost body -/

/-- The node is a call, or an expression that creates or deletes an object. -/
def isCallSite (node : Node) : Bool :=
  node.isNamed && node.kind ∈ ["call_expression", "new_expression", "delete_expression"]

theorem isMeaningful_of_isCallSite {node : Node} (isCall : isCallSite node = true) :
    node.isMeaningful = true := by
  obtain ⟨named, kind⟩ := Bool.and_eq_true_iff.mp isCall
  have noComment : node.kind ≠ "comment" := by
    rintro comment
    simp [comment] at kind
  simp [Node.isMeaningful, named, noComment]

/-- Nothing that has a name of the grammar lies below a token or a comment. -/
def BareTokens (root : Node) : Prop :=
  ∀ token : Node, token.Inside root → token.isMeaningful = false →
    ∀ low : Node, low.Inside token → low ≠ token → low.isNamed = false

theorem bareTokens_of_all {root : Node}
    (all : (root.visit (fun _ => true) (fun _ => true)).all Node.isMeaningful = true) :
    BareTokens root := by
  intro token inside token_bare
  have visited := Node.mem_visit_iff.mpr ⟨inside, fun _ _ _ _ => rfl⟩
  rw [List.all_eq_true.mp all token visited] at token_bare
  cases token_bare

/-- The body of a function, and the bodies of the lambdas that variables in it hold. -/
def functionBodies (root : Node) : List Node := root :: lambdaBodies (lambdasIn root)

/-- The innermost of the bodies in a function around a node. -/
structure EnclosingBody (root node body : Node) : Prop where
  listed : body ∈ functionBodies root
  around : node.Inside body
  innermost : ∀ other ∈ functionBodies root, node.Inside other → body.Inside other

/-- The node lies in a lambda that a variable in the body holds, but, the body being the innermost
one around it, not in the body of the lambda. -/
def CutOff (root node body : Node) : Prop :=
  ∃ lambda ∈ lambdasIn root, node.Inside lambda.node ∧ lambda.node.Inside body

theorem inside_of_mem_functionBodies {root body : Node} (listed : body ∈ functionBodies root) :
    body.Inside root := by
  rcases List.mem_cons.mp listed with rfl | isLambda
  · exact .refl _
  · obtain ⟨lambda, member, inField⟩ := mem_lambdaBodies.mp isLambda
    obtain ⟨declarator, inside, held⟩ := exists_of_mem_lambdasIn member
    exact (Node.Inside.of_field? inField).trans ((inside_of_namedLambda? held).trans inside)

/-- Among some nodes around a node, one is innermost. -/
theorem exists_innermost {root node start : Node} (top : start.Inside root)
    (around : node.Inside start) {others : List Node}
    (below : ∀ other ∈ others, other.Inside root) :
    ∃ least ∈ start :: others, node.Inside least ∧
      ∀ other ∈ start :: others, node.Inside other → least.Inside other := by
  induction others generalizing start with
  | nil => exact ⟨start, by simp, around, by simp [Node.Inside.refl]⟩
  | cons next rest ih =>
    have rest_below (other) (member : other ∈ rest) : other.Inside root :=
      below other (List.mem_cons_of_mem _ member)
    -- The next one replaces the innermost so far if it is around the node and deeper.
    by_cases within : node.Inside next ∧ next.Inside start
    · obtain ⟨least, listed, inside, lowest⟩ :=
        ih (below next List.mem_cons_self) within.1 rest_below
      refine ⟨least, List.mem_cons_of_mem _ listed, inside, fun other member above => ?_⟩
      rcases List.mem_cons.mp member with rfl | later
      · exact (lowest next List.mem_cons_self within.1).trans within.2
      · exact lowest other later above
    · obtain ⟨least, listed, inside, lowest⟩ := ih top around rest_below
      have kept : least ∈ start :: next :: rest := by
        rcases List.mem_cons.mp listed with rfl | later
        · exact List.mem_cons_self
        · exact List.mem_cons_of_mem _ (List.mem_cons_of_mem _ later)
      refine ⟨least, kept, inside, fun other member above => ?_⟩
      rcases List.mem_cons.mp member with rfl | later
      · exact lowest other List.mem_cons_self above
      · rcases List.mem_cons.mp later with rfl | later
        · -- The next one is not inside the first, so it is around it.
          have outer : start.Inside other :=
            (top.total (below other List.mem_cons_self) around above).resolve_right
              fun inner => within ⟨above, inner⟩
          exact (lowest start List.mem_cons_self around).trans outer
        · exact lowest other (List.mem_cons_of_mem _ later) above

theorem exists_enclosingBody {root node : Node} (inside : node.Inside root) :
    ∃ body, EnclosingBody root node body := by
  have below (other) (member : other ∈ lambdaBodies (lambdasIn root)) : other.Inside root :=
    inside_of_mem_functionBodies (List.mem_cons_of_mem _ member)
  obtain ⟨body, listed, around, innermost⟩ := exists_innermost (.refl root) inside below
  exact ⟨body, listed, around, innermost⟩

section Function

variable {files : List SourceFile} {unit : Path} {source : SourceFile} {index : Nat} {site : Site}
  {root node body : Node}

theorem bodies_of_functionBody? (own : site.functionBody? = some root) :
    site.bodies = functionBodies root := by
  rw [Site.bodies, own, Site.lambdas_of_functionBody? own]
  rfl

/-- Inside a function, the lambdas with a body of their own are those of the function. -/
theorem exists_lambda_of_isNamedLambda (loaded : (source, index) ∈ files.zipIdx)
    (met : site ∈ source.sites) (held : site.Holds node)
    (named : (SymbolTable.ofFiles files unit).isNamedLambda index node = true) :
    ∃ lambda ∈ site.lambdas, lambda.node = node := by
  -- The table knows lambdas by their addresses; the site that holds the node settles which it is.
  obtain ⟨source', loaded', site', met', lambda, listed, here⟩ :=
    SymbolTable.isNamedLambda_iff.mp named
  obtain rfl := source_eq_of_index loaded' loaded
  have held' := Site.holds_of_mem_lambdas listed
  obtain rfl := eq_of_holds met' met held' held here
  exact ⟨lambda, listed, (source'.inside_root met' held').eq_of_address
    (source'.inside_root met held) here⟩

/-- The scan of the innermost body visits a node that is not cut off. -/
theorem visits_enclosingBody (loaded : (source, index) ∈ files.zipIdx)
    (met : site ∈ source.sites) (own : site.functionBody? = some root)
    (bare : BareTokens (.ofTree source.tree)) (meaningful : node.isMeaningful = true)
    (enclosing : EnclosingBody root node body) (clear : ¬ CutOff root node body) :
    (SymbolTable.ofFiles files unit).Visits (index, body) node := by
  have recorded : body ∈ site.bodies := bodies_of_functionBody? own ▸ enclosing.listed
  have held := Site.holds_of_mem_bodies recorded
  refine Node.mem_visit_iff.mpr ⟨enclosing.around, fun between below above _ => ?_⟩
  -- Tokens and comments have nothing named below them, so none lies on the way to the node.
  have grammatical : between.isMeaningful = true := by
    by_contra token
    by_cases atNode : node = between
    · exact token (atNode ▸ meaningful)
    · have unnamed := bare between (source.inside_root met (held.below below)) (by simpa using token)
        node above atNode
      rw [Node.isMeaningful, unnamed, Bool.false_and] at meaningful
      cases meaningful
  rw [grammatical, Bool.true_and, Bool.not_eq_true']
  by_contra named
  obtain ⟨lambda, listed, rfl⟩ :=
    exists_lambda_of_isNamedLambda loaded met (held.below below) (by simpa using named)
  rw [Site.lambdas_of_functionBody? own] at listed
  exact clear ⟨lambda, listed, above, below⟩

/-- A scan that visits a node of a function is that of the innermost body around it, and then the
node is not cut off. -/
theorem enclosingBody_of_visits (loaded : (source, index) ∈ files.zipIdx)
    (met : site ∈ source.sites) (own : site.functionBody? = some root)
    (enclosing : EnclosingBody root node body) {scan : Body}
    (member : scan ∈ (SymbolTable.ofFiles files unit).bodies) {node' : Node}
    (visits : (SymbolTable.ofFiles files unit).Visits scan.place node')
    (same : (⟨scan.file, node'.address⟩ : NodeKey) = ⟨index, node.address⟩) :
    scan.node = body ∧ ¬ CutOff root node body := by
  obtain ⟨rfl, sameAddress⟩ := NodeKey.mk.inj same
  obtain ⟨source', loaded', site', met', recorded⟩ :=
    SymbolTable.exists_site_of_mem_bodies member
  obtain rfl := source_eq_of_index loaded' loaded
  have held : site.Holds node := by
    have listed : body ∈ site.bodies := bodies_of_functionBody? own ▸ enclosing.listed
    exact (Site.holds_of_mem_bodies listed).below enclosing.around
  have held' := (Site.holds_of_mem_bodies recorded).below visits.inside
  obtain rfl := eq_of_holds met' met held' held sameAddress
  obtain rfl := (source'.inside_root met' held').eq_of_address
    (source'.inside_root met held) sameAddress
  have cut (lambda : NamedLambda) (listed : lambda ∈ lambdasIn root)
      (inside : node'.Inside lambda.node) : ¬ lambda.node.Inside scan.node := by
    intro below
    rw [← Site.lambdas_of_functionBody? own] at listed
    exact SymbolTable.not_visits_of_cut scan.place
      (isNamedLambda_of_mem_lambdas loaded met listed) below (ne_of_mem_lambdas listed recorded)
      inside visits
  have inFunction : scan.node ∈ functionBodies root := bodies_of_functionBody? own ▸ recorded
  have deeper : body.Inside scan.node := enclosing.innermost _ inFunction visits.inside
  have same : scan.node = body := by
    rcases List.mem_cons.mp enclosing.listed with rfl | isLambda
    · exact (inside_of_mem_functionBodies inFunction).eq_of_length_le deeper.length_le
    · -- If the body is another one, then the lambda that it belongs to is cut out of the scan.
      obtain ⟨lambda, listed, inField⟩ := mem_lambdaBodies.mp isLambda
      by_contra different
      have top := source'.inside_root met (Site.holds_of_mem_bodies recorded)
      have inSite : lambda ∈ site'.lambdas := Site.lambdas_of_functionBody? own ▸ listed
      have lambdaHeld := Site.holds_of_mem_lambdas inSite
      have outer := Node.Inside.parent top (source'.inside_root met lambdaHeld)
        (Node.mem_children_of_field? inField) deeper (Ne.symm different)
      exact cut lambda listed (enclosing.around.trans (.of_field? inField)) outer
  exact ⟨same, fun ⟨lambda, listed, inside, below⟩ => cut lambda listed inside (same ▸ below)⟩

end Function

/-- A call in the body of a function, through however many lambdas, is examined once, by the scan
of the innermost body around it; but if it lies in a lambda that a variable holds without lying in
its body, as a call in a capture does, it is examined by none. -/
theorem call_site_examined {files : List SourceFile} {unit : Path} {source : SourceFile}
    {index : Nat} {definition root call : Node} {context : Context}
    (loaded : (source, index) ∈ files.zipIdx) (bare : BareTokens (.ofTree source.tree))
    (met : .functionDefinition definition context ∈ source.sites)
    (recorded : recordedBody? definition = some root) (inside : call.Inside root)
    (isCall : isCallSite call = true) :
    ∃ scan ∈ (SymbolTable.ofFiles files unit).bodies,
      scan.file = index ∧ EnclosingBody root call scan.node ∧
      (¬ CutOff root call scan.node →
        (SymbolTable.ofFiles files unit).scansOf ⟨index, call.address⟩ = [scan]) ∧
      (CutOff root call scan.node →
        (SymbolTable.ofFiles files unit).scansOf ⟨index, call.address⟩ = []) := by
  have own : (Site.functionDefinition definition context).functionBody? = some root := recorded
  obtain ⟨body, enclosing⟩ := exists_enclosingBody inside
  obtain ⟨scan, member, rfl, rfl⟩ := SymbolTable.exists_body_of_mem_bodies unit loaded met
    (bodies_of_functionBody? own ▸ enclosing.listed)
  have meaningful := isMeaningful_of_isCallSite isCall
  refine ⟨scan, member, rfl, enclosing, fun clear => ?_, fun cut => ?_⟩
  · exact SymbolTable.scansOf_eq_singleton member
      (visits_enclosingBody loaded met own bare meaningful enclosing clear)
  · refine SymbolTable.scansOf_eq_nil fun other member' node visits same => ?_
    exact (enclosingBody_of_visits loaded met own enclosing member' visits same).2 cut

section Example

open SyntaxTree (under)

private def callOfG : SyntaxTree :=
  under "" "call_expression" "" [under "function" "identifier" "g" []]

private def functionDeclarator (name : String) : SyntaxTree :=
  under "declarator" "function_declarator" "" [under "declarator" "identifier" name []]

private def holding (name : String) (value : SyntaxTree) : SyntaxTree :=
  under "" "declaration" "" [under "declarator" "init_declarator" ""
    [under "declarator" "identifier" name [], value]]

private def innerBody : SyntaxTree := under "body" "compound_statement" "" [callOfG]

/-- The tree of `[] { g(); }`. -/
private def innerLambda : SyntaxTree := under "value" "lambda_expression" "" [innerBody]

private def outerBody : SyntaxTree :=
  under "body" "compound_statement" "" [holding "inner" innerLambda]

/-- The tree of `[a = g()] { auto inner = [] { g(); }; }`. -/
private def outerLambda : SyntaxTree :=
  under "value" "lambda_expression" "" [under "captures" "lambda_capture_specifier" "" [callOfG],
    outerBody]

private def capturingBody : SyntaxTree :=
  under "body" "compound_statement" "" [holding "outer" outerLambda]

private def capturingFunction : SyntaxTree :=
  under "" "function_definition" "" [functionDeclarator "f", capturingBody]

/-- `void g(); void f() { auto outer = [a = g()] { auto inner = [] { g(); }; }; }`. -/
private def capturingFile : SourceFile :=
  ⟨⟨"/w/m.cpp"⟩, "", under "" "translation_unit" ""
    [under "" "declaration" "" [functionDeclarator "g"], capturingFunction], false⟩

/-- The body of `f`. -/
private def capturingRoot : Node := ⟨capturingBody, [1, 1]⟩

/-- The call in the capture of `outer`. -/
private def callInCapture : Node := ⟨callOfG, [0, 0, 1, 0, 0, 1, 1]⟩

/-- The call in the body of `inner`. -/
private def callInInner : Node := ⟨callOfG, [0, 0, 1, 0, 0, 1, 1, 0, 0, 1, 1]⟩

private theorem inside_child (parent : Node) {child : SyntaxTree} (number : Nat)
    (found : parent.tree.children[number]? = some child) :
    (⟨child, number :: parent.address⟩ : Node).Inside parent :=
  .of_mem_children (Node.mem_children_iff.mpr ⟨number, found, rfl⟩)

private theorem outer_inside : (⟨outerLambda, [1, 0, 0, 1, 1]⟩ : Node).Inside capturingRoot :=
  ((inside_child ⟨_, [0, 0, 1, 1]⟩ 1 rfl).trans
    (inside_child ⟨holding "outer" outerLambda, [0, 1, 1]⟩ 0 rfl)).trans
    (inside_child _ 0 rfl)

private theorem callInCapture_inside : callInCapture.Inside capturingRoot :=
  ((inside_child ⟨_, [0, 1, 0, 0, 1, 1]⟩ 0 rfl).trans
    (inside_child ⟨outerLambda, [1, 0, 0, 1, 1]⟩ 0 rfl)).trans outer_inside

private theorem callInInner_inside_innerBody :
    callInInner.Inside ⟨innerBody, [0, 1, 0, 0, 1, 1, 0, 0, 1, 1]⟩ :=
  inside_child _ 0 rfl

private theorem callInInner_inside : callInInner.Inside capturingRoot :=
  (((((callInInner_inside_innerBody.trans
    (inside_child ⟨innerLambda, [1, 0, 0, 1, 1, 0, 0, 1, 1]⟩ 0 rfl)).trans
    (inside_child ⟨_, [0, 0, 1, 1, 0, 0, 1, 1]⟩ 1 rfl)).trans
    (inside_child ⟨holding "inner" innerLambda, [0, 1, 1, 0, 0, 1, 1]⟩ 0 rfl)).trans
    (inside_child ⟨outerBody, [1, 1, 0, 0, 1, 1]⟩ 0 rfl)).trans
    (inside_child ⟨outerLambda, [1, 0, 0, 1, 1]⟩ 1 rfl)).trans outer_inside

private theorem capturing_met :
    .functionDefinition ⟨capturingFunction, [1]⟩ ⟨[], none⟩ ∈ capturingFile.sites := by
  refine @mem_sites_of_transparent _ _ ⟨capturingFunction, [1]⟩ _ (by decide)
    (List.mem_of_getElem? (i := 1) rfl) ?_
  rw [sites_functionDefinition rfl]
  exact List.mem_singleton_self _

private theorem capturing_recorded :
    recordedBody? ⟨capturingFunction, [1]⟩ = some capturingRoot := by
  have declares : ((⟨capturingFunction, [1]⟩ : Node).field? "declarator").bind functionShape? =
      some ⟨⟨under "declarator" "identifier" "f" [], [0, 0, 1]⟩, none, []⟩ := by
    cbv
  exact recordedBody?_of_named declares (by decide +kernel)

private theorem lambdas_capturing : (lambdasIn capturingRoot).map NamedLambda.node =
    [⟨outerLambda, [1, 0, 0, 1, 1]⟩, ⟨innerLambda, [1, 0, 0, 1, 1, 0, 0, 1, 1]⟩] := by
  cbv

private theorem bodies_capturing : lambdaBodies (lambdasIn capturingRoot) =
    [⟨outerBody, [1, 1, 0, 0, 1, 1]⟩, ⟨innerBody, [0, 1, 0, 0, 1, 1, 0, 0, 1, 1]⟩] := by
  cbv

/-- The call in the inner lambda is examined once, by the scan of the body of that lambda. -/
theorem call_in_nested_lambda_examined : callInInner.Inside capturingRoot ∧
    ∃ scan ∈ (SymbolTable.ofFiles [capturingFile] ⟨"/w/m.cpp"⟩).bodies,
      scan.node = ⟨innerBody, [0, 1, 0, 0, 1, 1, 0, 0, 1, 1]⟩ ∧
      (SymbolTable.ofFiles [capturingFile] ⟨"/w/m.cpp"⟩).scansOf ⟨0, callInInner.address⟩ =
        [scan] := by
  have loaded : (capturingFile, 0) ∈ [capturingFile].zipIdx := List.mem_singleton_self _
  obtain ⟨scan, member, _, enclosing, once, _⟩ := @call_site_examined _ ⟨"/w/m.cpp"⟩ _ _ _ _ _ _
    loaded (bareTokens_of_all (by decide +kernel)) capturing_met capturing_recorded
    callInInner_inside (by decide)
  have innermost := enclosing.innermost ⟨innerBody, [0, 1, 0, 0, 1, 1, 0, 0, 1, 1]⟩
    (by simp [functionBodies, bodies_capturing]) callInInner_inside_innerBody
  have isInner : scan.node = ⟨innerBody, [0, 1, 0, 0, 1, 1, 0, 0, 1, 1]⟩ := by
    have listed := enclosing.listed
    have long := innermost.length_le
    simp only [functionBodies, bodies_capturing, List.mem_cons, List.not_mem_nil, or_false]
      at listed
    rcases listed with here | here | here
    · simp [here, capturingRoot] at long
    · simp [here] at long
    · exact here
  refine ⟨callInInner_inside, scan, member, isInner, once ?_⟩
  -- Both lambdas lie around the body, not in it.
  rintro ⟨lambda, listed, _, below⟩
  have node := List.mem_map_of_mem (f := NamedLambda.node) listed
  have long := below.length_le
  rw [isInner] at long
  simp only [lambdas_capturing, List.mem_cons, List.not_mem_nil, or_false] at node
  rcases node with here | here <;> simp [here] at long

/-- The call in the capture is in the body of the function and in no lambda's body, but no scan
examines it. -/
theorem call_in_capture_unexamined : isCallSite callInCapture = true ∧
    .functionDefinition ⟨capturingFunction, [1]⟩ ⟨[], none⟩ ∈ capturingFile.sites ∧
    BareTokens (.ofTree capturingFile.tree) ∧
    recordedBody? ⟨capturingFunction, [1]⟩ = some capturingRoot ∧
    callInCapture.Inside capturingRoot ∧
    (∀ body ∈ lambdaBodies (lambdasIn capturingRoot), ¬ callInCapture.Inside body) ∧
    (SymbolTable.ofFiles [capturingFile] ⟨"/w/m.cpp"⟩).scansOf ⟨0, callInCapture.address⟩ = [] := by
  refine ⟨by decide, capturing_met, bareTokens_of_all (by decide +kernel), capturing_recorded,
    callInCapture_inside, fun body listed inside => ?_,
    List.eq_nil_of_length_eq_zero (by decide +kernel)⟩
  have ends := inside.suffix
  simp only [bodies_capturing, List.mem_cons, List.not_mem_nil, or_false] at listed
  rcases listed with rfl | rfl
  · exact absurd ends (by decide)
  · exact absurd ends (by decide)

end Example

end CallGraph.Cpp
