import CallGraph.Cpp.Call
import CallGraph.Proofs.Cpp.Declared
import CallGraph.Proofs.Cpp.Sites

/-!
# Which bodies are recorded

The bodies of a table and the lambdas it knows, read off the trees of its files: every site
contributes the body of its function, if it has one, and the lambdas that variables hold in it,
each with its own body (`SymbolTable.records_ofFiles`).
-/
namespace CallGraph.Cpp

/-! ### Lambdas held by variables -/

theorem fieldName_of_field? {node child : Node} {field : String}
    (found : node.field? field = some child) : child.tree.label.field? = some field := by
  simpa using List.find?_some found

theorem namedLambda?_spec {declarator : Node} {lambda : NamedLambda}
    (held : namedLambda? declarator = some lambda) :
    declarator.field? "value" = some lambda.node ∧ lambda.node.kind = "lambda_expression" := by
  unfold namedLambda? at held
  split at held
  · split at held
    · rename_i name value inName inValue
      split at held
      · rename_i kinds
        obtain rfl := Option.some.inj held
        exact ⟨inValue, kinds.2⟩
      · cases held
    · cases held
  · cases held

/-- A lambda that a declarator stores is the value of the declarator. -/
theorem value_of_namedLambda? {declarator : Node} {lambda : NamedLambda}
    (held : namedLambda? declarator = some lambda) :
    declarator.field? "value" = some lambda.node :=
  (namedLambda?_spec held).1

theorem inside_of_namedLambda? {declarator : Node} {lambda : NamedLambda}
    (held : namedLambda? declarator = some lambda) : lambda.node.Inside declarator :=
  .of_field? (value_of_namedLambda? held)

/-- Different declarators store different lambdas. -/
theorem pairwise_filterMap_namedLambda {declarators : List Node} {held? : Node → Option NamedLambda}
    (sound : ∀ declarator lambda, held? declarator = some lambda →
      namedLambda? declarator = some lambda)
    (distinct : declarators.Pairwise fun one other => one.address ≠ other.address) :
    (declarators.filterMap held?).Pairwise fun one other =>
      one.node.address ≠ other.node.address := by
  refine List.pairwise_filterMap.mpr (distinct.imp ?_)
  intro first second different lambda held lambda' held' same
  have child := Node.mem_children_of_field? (value_of_namedLambda? (sound _ _ held))
  have child' := Node.mem_children_of_field? (value_of_namedLambda? (sound _ _ held'))
  obtain ⟨_, _, here⟩ := Node.mem_children_iff.mp child
  obtain ⟨_, _, here'⟩ := Node.mem_children_iff.mp child'
  rw [here, here'] at same
  exact different (List.cons.inj same).2

/-- The bodies of lambdas. -/
def lambdaBodies (lambdas : List NamedLambda) : List Node :=
  lambdas.filterMap fun lambda => lambda.node.field? "body"

theorem mem_lambdaBodies {lambdas : List NamedLambda} {body : Node} :
    body ∈ lambdaBodies lambdas ↔
      ∃ lambda ∈ lambdas, lambda.node.field? "body" = some body := by
  simp [lambdaBodies]

/-! ### What a site contributes -/

/-- The body that a function definition is recorded with. -/
def recordedBody? (definition : Node) : Option Node := do
  let shape ← (definition.field? "declarator").bind functionShape?
  if (declaredSpelling (splitQualified shape.name).2).1 = "" then none
  else definition.field? "body"

/-- A function with a name is recorded with the body that it has. -/
theorem recordedBody?_of_named {definition : Node} {shape : FunctionShape}
    (declares : (definition.field? "declarator").bind functionShape? = some shape)
    (named : (declaredSpelling (splitQualified shape.name).2).1 ≠ "") :
    recordedBody? definition = definition.field? "body" := by
  rw [recordedBody?, declares]
  exact if_neg named

/-- The lambda that a declarator outside functions stores in a variable. -/
def declaredLambda? (declarator : Node) : Option NamedLambda :=
  if (functionShape? declarator).isSome || (functionPointer? declarator).isSome then none
  else namedLambda? declarator

namespace Site

def functionBody? : Site → Option Node
  | .functionDefinition whole _ => recordedBody? whole
  | _ => none

/-- The lambdas that variables hold in what a site takes up. -/
def lambdas : Site → List NamedLambda
  | .functionDefinition whole _ => (recordedBody? whole).toList.flatMap lambdasIn
  | .declaration whole _ => (whole.fieldChildren "declarator").filterMap declaredLambda?
  | _ => []

/-- The bodies that are recorded with a site. -/
def bodies (site : Site) : List Node := site.functionBody?.toList ++ lambdaBodies site.lambdas

end Site

theorem inside_of_recordedBody? {definition body : Node}
    (recorded : recordedBody? definition = some body) : definition.field? "body" = some body := by
  obtain ⟨shape, _, rest⟩ := Option.bind_eq_some_iff.mp recorded
  split at rest
  · cases rest
  · exact rest

theorem namedLambda?_of_declaredLambda? {declarator : Node} {lambda : NamedLambda}
    (declared : declaredLambda? declarator = some lambda) :
    namedLambda? declarator = some lambda := by
  unfold declaredLambda? at declared
  split at declared
  · cases declared
  · exact declared

theorem exists_of_mem_lambdasIn {body : Node} {lambda : NamedLambda}
    (member : lambda ∈ lambdasIn body) :
    ∃ declarator, declarator.Inside body ∧ namedLambda? declarator = some lambda := by
  obtain ⟨declarator, visited, held⟩ := List.mem_filterMap.mp member
  exact ⟨declarator, Node.inside_of_mem_visit visited, held⟩

namespace Site

variable {site : Site}

/-- Each lambda of a site is what a declarator in the site stores. -/
theorem exists_declarator_of_mem_lambdas {lambda : NamedLambda} (member : lambda ∈ site.lambdas) :
    ∃ declarator, site.Holds declarator ∧ namedLambda? declarator = some lambda := by
  cases site with
  | openNamespace names => simp [lambdas] at member
  | openClass qualified bases => simp [lambdas] at member
  | functionDefinition whole context =>
    obtain ⟨body, recorded, inBody⟩ := List.mem_flatMap.mp member
    obtain ⟨declarator, inside, held⟩ := exists_of_mem_lambdasIn inBody
    exact ⟨declarator, inside.trans (.of_field?
      (inside_of_recordedBody? (Option.mem_toList.mp recorded))), held⟩
  | declaration whole context =>
    obtain ⟨declarator, child, held⟩ := List.mem_filterMap.mp member
    exact ⟨declarator, ⟨declarator, child, .refl _⟩, namedLambda?_of_declaredLambda? held⟩

theorem holds_of_mem_lambdas {lambda : NamedLambda} (member : lambda ∈ site.lambdas) :
    site.Holds lambda.node := by
  obtain ⟨declarator, held, stored⟩ := exists_declarator_of_mem_lambdas member
  exact held.below (inside_of_namedLambda? stored)

/-- A lambda is held as a value. -/
theorem fieldName_of_mem_lambdas {lambda : NamedLambda} (member : lambda ∈ site.lambdas) :
    lambda.node.tree.label.field? = some "value" := by
  obtain ⟨_, _, stored⟩ := exists_declarator_of_mem_lambdas member
  exact fieldName_of_field? (value_of_namedLambda? stored)

theorem pairwise_lambdas (site : Site) :
    site.lambdas.Pairwise fun one other => one.node.address ≠ other.node.address := by
  cases site with
  | openNamespace names => exact .nil
  | openClass qualified bases => exact .nil
  | functionDefinition whole context =>
    cases recorded : recordedBody? whole with
    | none => simp [lambdas, recorded]
    | some body =>
      simp only [lambdas, recorded, Option.toList_some, List.flatMap_singleton]
      exact pairwise_filterMap_namedLambda (fun _ _ => id) (Node.pairwise_visit _ _ _)
  | declaration whole context =>
    exact pairwise_filterMap_namedLambda (fun _ _ => namedLambda?_of_declaredLambda?)
      ((Node.pairwise_children whole).filter _)

/-- The lambdas of a function are those of its body. -/
theorem lambdas_of_functionBody? {root : Node} (own : site.functionBody? = some root) :
    site.lambdas = lambdasIn root := by
  cases site with
  | functionDefinition whole context =>
    have recorded : recordedBody? whole = some root := own
    simp [lambdas, recorded]
  | _ => cases own

theorem mem_bodies {body : Node} : body ∈ site.bodies ↔ site.functionBody? = some body ∨
    ∃ lambda ∈ site.lambdas, lambda.node.field? "body" = some body := by
  simp [bodies, mem_lambdaBodies]

/-- A body is held as a body. -/
theorem fieldName_of_mem_bodies {body : Node} (member : body ∈ site.bodies) :
    body.tree.label.field? = some "body" := by
  rcases mem_bodies.mp member with own | ⟨lambda, _, inField⟩
  · cases site with
    | functionDefinition whole context => exact fieldName_of_field? (inside_of_recordedBody? own)
    | _ => cases own
  · exact fieldName_of_field? inField

theorem holds_of_mem_bodies {body : Node} (member : body ∈ site.bodies) : site.Holds body := by
  rcases mem_bodies.mp member with own | ⟨lambda, listed, inField⟩
  · cases site with
    | functionDefinition whole context => exact .of_field? (inside_of_recordedBody? own)
    | _ => cases own
  · exact (holds_of_mem_lambdas listed).below (.of_field? inField)

end Site

/-! ### What the table holds -/

/-- Where a body is: its file and its node. -/
def Body.place (body : Body) : Nat × Node := (body.file, body.node)

/-- The second table has some more bodies than the first, in this order, and knows some more
lambdas, the last of them first. -/
structure Records (bodies : List (Nat × Node)) (lambdas : List NodeKey)
    (before after : SymbolTable) : Prop where
  places_eq : after.bodies.map Body.place = before.bodies.map Body.place ++ bodies
  keys_eq : after.namedLambdas.map Prod.fst =
    lambdas.reverse ++ before.namedLambdas.map Prod.fst

namespace Records

theorem none {before after : SymbolTable} (bodies : after.bodies = before.bodies)
    (lambdas : after.namedLambdas = before.namedLambdas) : Records [] [] before after where
  places_eq := by rw [bodies, List.append_nil]
  keys_eq := by simp [lambdas]

theorem trans {first second : List (Nat × Node)} {lambdas lambdas' : List NodeKey}
    {before middle after : SymbolTable} (one : Records first lambdas before middle)
    (other : Records second lambdas' middle after) :
    Records (first ++ second) (lambdas ++ lambdas') before after where
  places_eq := by rw [other.places_eq, one.places_eq, List.append_assoc]
  keys_eq := by rw [other.keys_eq, one.keys_eq, List.reverse_append, List.append_assoc]

theorem foldl {α : Type} {add : SymbolTable → α → SymbolTable} {bodies : α → List (Nat × Node)}
    {lambdas : α → List NodeKey}
    (step : ∀ table item, Records (bodies item) (lambdas item) table (add table item))
    (items : List α) (table : SymbolTable) :
    Records (items.flatMap bodies) (items.flatMap lambdas) table (items.foldl add table) := by
  induction items generalizing table with
  | nil => exact none rfl rfl
  | cons item rest ih => exact (step table item).trans (ih (add table item))

end Records

section File

variable (file : FileRef)

/-- The key of a node of the file. -/
def FileRef.key (node : Node) : NodeKey := ⟨file.index, node.address⟩

/-- What is recorded of the bodies and the lambdas of a file. -/
abbrev FileRef.Records (bodies : List Node) (lambdas : List NamedLambda)
    (before after : SymbolTable) : Prop :=
  Cpp.Records (bodies.map (file.index, ·)) (lambdas.map fun lambda => file.key lambda.node)
    before after

variable (context : Context) (table : SymbolTable)

theorem records_addNamedLambda (scope : BodyScope) (isLocal : Bool) (lambda : NamedLambda) :
    file.Records (lambdaBodies [lambda]) [lambda] table
      (addNamedLambda file scope isLocal table lambda) := by
  unfold addNamedLambda lambdaBodies
  dsimp only
  cases inField : lambda.node.field? "body" with
  | none =>
    constructor
    · simp [SymbolTable.addLambda, SymbolTable.addSymbol, inField]
    · simp [SymbolTable.addLambda, SymbolTable.addSymbol, FileRef.key]
  | some body =>
    constructor
    · simp [SymbolTable.addLambda, SymbolTable.addSymbol, SymbolTable.addBody, inField, Body.place]
    · simp [SymbolTable.addLambda, SymbolTable.addSymbol, SymbolTable.addBody, FileRef.key]

variable {file table} in
theorem FileRef.Records.trans {bodies bodies' : List Node} {lambdas lambdas' : List NamedLambda}
    {middle after : SymbolTable} (one : file.Records bodies lambdas table middle)
    (other : file.Records bodies' lambdas' middle after) :
    file.Records (bodies ++ bodies') (lambdas ++ lambdas') table after := by
  rw [FileRef.Records, List.map_append, List.map_append]
  exact Cpp.Records.trans one other

theorem records_addNamedLambdas (scope : BodyScope) (isLocal : Bool)
    (lambdas : List NamedLambda) : file.Records (lambdaBodies lambdas) lambdas table
      (lambdas.foldl (addNamedLambda file scope isLocal) table) := by
  induction lambdas generalizing table with
  | nil => exact .none rfl rfl
  | cons lambda rest ih =>
    have both := (records_addNamedLambda file table scope isLocal lambda).trans (ih _)
    rwa [lambdaBodies, lambdaBodies, ← List.filterMap_append, ← lambdaBodies] at both

/-- A callable without a body is no change. -/
theorem records_addSymbol (symbol : Symbol) :
    file.Records [] [] table (table.addSymbol symbol) :=
  .none rfl rfl

/-- The lambdas in a body are recorded after it. -/
theorem records_addBody (symbol : Symbol) {body : Body} {node : Node} (own : body.node = node)
    (here : body.file = file.index) :
    file.Records [node] [] table ((table.addSymbol symbol).addBody body) where
  places_eq := by simp [SymbolTable.addSymbol, SymbolTable.addBody, Body.place, own, here]
  keys_eq := by simp [SymbolTable.addSymbol, SymbolTable.addBody]

theorem records_addFunction (declaration : Node) (shape : FunctionShape) (isDefinition : Bool)
    (body? : Option Node) :
    let recorded? := if (declaredSpelling (splitQualified shape.name).2).1 = "" then none else body?
    let lambdas := recorded?.toList.flatMap lambdasIn
    file.Records (recorded?.toList ++ lambdaBodies lambdas) lambdas table
      (addFunction file context table declaration shape isDefinition body?) := by
  unfold addFunction
  dsimp only
  split
  · exact .none rfl rfl
  · cases body? with
    | none => exact .none rfl rfl
    | some body =>
      simp only [Option.toList_some, List.flatMap_singleton]
      refine .trans (records_addBody file table _ ?_ ?_)
        (records_addNamedLambdas file _ _ true (lambdasIn body))
      · rfl
      · rfl

theorem records_addFunctionDefinition (node : Node) :
    file.Records (Site.functionDefinition node context).bodies
      (Site.functionDefinition node context).lambdas table
      (addFunctionDefinition file context table node) := by
  change file.Records ((recordedBody? node).toList ++
    lambdaBodies ((recordedBody? node).toList.flatMap lambdasIn))
    ((recordedBody? node).toList.flatMap lambdasIn) _ _
  unfold addFunctionDefinition
  cases shaped : (node.field? "declarator").bind functionShape? with
  | none =>
    have unrecorded : recordedBody? node = none := by simp [recordedBody?, shaped]
    rw [unrecorded]
    exact .none rfl rfl
  | some shape =>
    have recorded : recordedBody? node = if (declaredSpelling (splitQualified shape.name).2).1 = ""
        then none else node.field? "body" := by
      simp [recordedBody?, shaped]
    rw [recorded]
    exact records_addFunction file context table node shape _ _

theorem records_addDeclarator (node declarator : Node) :
    file.Records (lambdaBodies (declaredLambda? declarator).toList)
      (declaredLambda? declarator).toList table
      (addDeclarator file context node table declarator) := by
  unfold addDeclarator declaredLambda?
  cases functionShape? declarator with
  | some shape => simpa using records_addFunction file context table node shape false none
  | none =>
    cases functionPointer? declarator with
    | some pointer => exact records_addSymbol file table _
    | none =>
      cases namedLambda? declarator with
      | some lambda => exact records_addNamedLambda file table _ false lambda
      | none =>
        -- A variable adds a field or a global.
        have same : (addVariable context table node declarator).bodies = table.bodies ∧
            (addVariable context table node declarator).namedLambdas = table.namedLambdas := by
          unfold addVariable
          split
          · split <;> exact ⟨rfl, rfl⟩
          · exact ⟨rfl, rfl⟩
        exact .none same.1 same.2

theorem records_addDeclarators (node : Node) (declarators : List Node) :
    file.Records (lambdaBodies (declarators.filterMap declaredLambda?))
      (declarators.filterMap declaredLambda?) table
      (declarators.foldl (addDeclarator file context node) table) := by
  induction declarators generalizing table with
  | nil => exact .none rfl rfl
  | cons declarator rest ih =>
    have both := (records_addDeclarator file context table node declarator).trans (ih _)
    have split : (declarator :: rest).filterMap declaredLambda? =
        (declaredLambda? declarator).toList ++ rest.filterMap declaredLambda? := by
      cases found : declaredLambda? declarator <;> simp [found]
    rwa [lambdaBodies, lambdaBodies, ← List.filterMap_append, ← split] at both

theorem records_addSite (site : Site) :
    file.Records site.bodies site.lambdas table (addSite file table site) := by
  cases site with
  | openNamespace names => exact .none rfl rfl
  | openClass qualified bases => exact .none rfl rfl
  | functionDefinition node context => exact records_addFunctionDefinition file context table node
  | declaration node context => exact records_addDeclarators file context table node _

end File

/-! ### The table of a unit -/

/-- The bodies of a unit, in the order in which their callables are declared. -/
def bodyPlaces (files : List SourceFile) : List (Nat × Node) :=
  files.zipIdx.flatMap fun (source, index) =>
    source.sites.flatMap fun site => site.bodies.map (index, ·)

/-- The lambdas that the variables of a unit hold. -/
def lambdaKeys (files : List SourceFile) : List NodeKey :=
  files.zipIdx.flatMap fun (source, index) =>
    source.sites.flatMap fun site => site.lambdas.map fun lambda => ⟨index, lambda.node.address⟩

theorem SymbolTable.records_ofFiles (files : List SourceFile) (unit : Path) :
    Records (bodyPlaces files) (lambdaKeys files) .empty (.ofFiles files unit) :=
  Records.foldl (fun table (source, index) =>
    Records.foldl (records_addSite ⟨index, source.path, unit⟩) source.sites table) files.zipIdx _

theorem SymbolTable.map_place_bodies (files : List SourceFile) (unit : Path) :
    (SymbolTable.ofFiles files unit).bodies.map Body.place = bodyPlaces files :=
  (records_ofFiles files unit).places_eq

theorem SymbolTable.map_fst_namedLambdas (files : List SourceFile) (unit : Path) :
    (SymbolTable.ofFiles files unit).namedLambdas.map Prod.fst = (lambdaKeys files).reverse :=
  (records_ofFiles files unit).keys_eq.trans (List.append_nil _)

/-- The lambdas with a body of their own are those that variables hold. -/
theorem SymbolTable.isNamedLambda_iff {files : List SourceFile} {unit : Path} {index : Nat}
    {node : Node} : (SymbolTable.ofFiles files unit).isNamedLambda index node = true ↔
      ∃ source, (source, index) ∈ files.zipIdx ∧
        ∃ site ∈ source.sites, ∃ lambda ∈ site.lambdas, lambda.node.address = node.address := by
  have listed : (isNamedLambda (.ofFiles files unit) index node = true) ↔
      (⟨index, node.address⟩ : NodeKey) ∈ lambdaKeys files := by
    rw [← List.mem_reverse, ← map_fst_namedLambdas files unit, List.mem_map, isNamedLambda,
      List.lookup_isSome_iff]
    exact exists_congr fun entry => and_congr_right' (by rw [beq_iff_eq, eq_comm])
  rw [listed, lambdaKeys, List.mem_flatMap]
  constructor
  · rintro ⟨⟨source, number⟩, loaded, member⟩
    obtain ⟨site, met, member⟩ := List.mem_flatMap.mp member
    obtain ⟨lambda, held, same⟩ := List.mem_map.mp member
    obtain ⟨rfl, here⟩ := NodeKey.mk.inj same
    exact ⟨source, loaded, site, met, lambda, held, here⟩
  · rintro ⟨source, loaded, site, met, lambda, held, here⟩
    refine ⟨(source, index), loaded, List.mem_flatMap.mpr ⟨site, met, ?_⟩⟩
    exact List.mem_map.mpr ⟨lambda, held, by rw [here]⟩

end CallGraph.Cpp
