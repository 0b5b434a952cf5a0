import CallGraph.Cpp.Declarator
import CallGraph.Cpp.SourceUnit
import CallGraph.Cpp.SymbolTable

/-!
# Declarations

Reading the declarations of a unit into a symbol table. First the places that declare something
are listed in source order, each with the scope it lies in; then the table is built from the list
place by place.
-/
namespace CallGraph.Cpp

/-- The scope and the class that a declaration lies in. -/
structure Context where
  scope : List String
  class? : Option String
deriving DecidableEq, Repr, Inhabited

/-- A place that declares something. -/
inductive Site where
  /-- A namespace is opened; the qualified names of all namespaces it lies in from there. -/
  | openNamespace (names : List String)
  /-- A class is opened, with its bases. -/
  | openClass (qualified : String) (bases : List TypeName)
  | functionDefinition (node : Node) (context : Context)
  | declaration (node : Node) (context : Context)
deriving Inhabited

/-- The nodes that hold declarations of their surroundings' scope. -/
def isTransparent (node : Node) : Bool :=
  node.kind ∈ ["translation_unit", "declaration_list", "field_declaration_list",
    "template_declaration", "linkage_specification", "preproc_if", "preproc_ifdef",
    "preproc_else", "preproc_elif", "preproc_elifdef"]

def isClassSpecifier (node : Node) : Bool :=
  node.kind ∈ ["class_specifier", "struct_specifier", "union_specifier"]

/-- The components of the name of a namespace. -/
def namespaceParts (node : Node) : List String :=
  match node.field? "name" with
  | some name => ((Text.split "::" name.text).map Text.trim).filter (· ≠ "")
  | none => []

/-- The qualified names of the namespaces that `parts` opens, one after the other, in a scope. -/
def namespaceNames (scope parts : List String) : List String :=
  (List.range parts.length).map fun count => joinScope (scope ++ parts.take (count + 1))

def baseTypes (scope : List String) (node : Node) : List TypeName :=
  (node.children.filter (·.kind == "base_class_clause")).flatMap fun clause =>
    clause.namedChildren.filterMap (TypeName.ofNode? scope)

/-- The members of the node that a node holds as its body. -/
def bodyMembers (node : Node) : List Node :=
  match node.field? "body" with
  | some body => body.namedChildren
  | none => []

theorem sizeOf_lt_of_mem_bodyMembers {node inner : Node} (found : inner ∈ bodyMembers node) :
    sizeOf inner.tree < sizeOf node.tree := by
  unfold bodyMembers at found
  split at found
  · rename_i body inField
    exact Nat.lt_trans (Node.sizeOf_tree_lt (Node.namedChildren_subset found))
      (Node.sizeOf_tree_lt (Node.mem_children_of_field? inField))
  · simp at found

/-- The places below a node that declare something, in source order. -/
def sites (context : Context) (node : Node) : List Site :=
  if isTransparent node then
    node.namedChildren.attach.flatMap fun child => sites context child.val
  else if node.kind = "namespace_definition" then
    let parts := namespaceParts node
    let inner : Context := ⟨context.scope ++ parts, none⟩
    .openNamespace (namespaceNames context.scope parts) ::
      (bodyMembers node).attach.flatMap fun child => sites inner child.val
  else if isClassSpecifier node then
    match node.field? "name" with
    | none => []
    | some name =>
      let scope := context.scope ++ qualifiedParts name
      let qualified := joinScope scope
      let inner : Context := ⟨scope, some qualified⟩
      .openClass qualified (baseTypes context.scope node) ::
        (bodyMembers node).attach.flatMap fun child => sites inner child.val
  else if node.kind = "function_definition" then [.functionDefinition node context]
  else if node.kind = "declaration" ∨ node.kind = "field_declaration" then
    -- The declarators come first: they are read before the class that their type may specify.
    .declaration node context ::
      match _found : node.field? "type" with
      | some type => if isClassSpecifier type then sites context type else []
      | none => []
  else []
termination_by sizeOf node.tree
decreasing_by
  · exact Node.sizeOf_tree_lt (Node.namedChildren_subset child.property)
  · exact sizeOf_lt_of_mem_bodyMembers child.property
  · exact sizeOf_lt_of_mem_bodyMembers child.property
  · exact Node.sizeOf_tree_lt (Node.mem_children_of_field? _found)

/-- The spelling that a function's name has, and what its form says of the kind of function. -/
inductive NameForm where
  | plain
  | destructor
  | conversion
deriving DecidableEq, Repr, Inhabited

/-- The spelling and the form of the name of a declared function. -/
def declaredSpelling (name : Node) : String × NameForm :=
  if name.kind = "destructor_name" then (Text.withoutBlanks name.text, .destructor)
  else if name.kind = "operator_cast" then
    let target := ((name.field? "type").map (canonicalText [])).getD ""
    ("operator " ++ target, .conversion)
  else if name.kind = "operator_name" then (operatorName name.text, .plain)
  else if name.kind = "template_function" then
    (((name.field? "name").map Node.text).getD "", .plain)
  else (name.text, .plain)

/--
The class that a function belongs to. A qualifier that is no known namespace is taken for a class,
which may be declared in a header that was not seen.
-/
def ownerOf? (table : SymbolTable) (context : Context) (qualifiers : List String) :
    Option String :=
  if qualifiers = [] then context.class?
  else
    let qualified := joinScope (context.scope ++ qualifiers)
    if table.hasClass qualified || !(qualified ∈ table.namespaces) then some qualified else none

/-- The kind of a declared function. -/
def functionKind (form : NameForm) (owner? : Option String) (spelling : String) : CallableKind :=
  match owner? with
  | none => .function
  | some owner =>
    match form with
    | .destructor => .destructor
    | .conversion => .conversionOperator
    | .plain => if lastComponent owner = spelling then .constructor else .method

/-- The result type that a declaration writes: its qualifiers and its type. -/
def writtenResult (declaration : Node) : String :=
  match declaration.field? "type" with
  | none => ""
  | some type =>
    let leading := declaration.namedChildren.takeWhile (·.address ≠ type.address)
    let qualifiers := (leading.filter (·.kind == "type_qualifier")).map Node.text
    joinTokens (qualifiers ++ [canonicalText [] type])

/-- The types of the named parameters, as seen from a scope. -/
def typedParameters (scope : List String) (parameters : Parameters) : List (String × TypeName) :=
  parameters.named.filterMap fun (name, type) =>
    (TypeName.ofNode? scope type).map fun typeName => (name, typeName)

/-- Which file is being read, and for which unit. -/
structure FileRef where
  /-- The number of the file in the unit. -/
  index : Nat
  path : Path
  translationUnit : Path
deriving DecidableEq, Repr, Inhabited

/-- The names that a body sees: where its lambdas are declared, and where it looks names up. -/
structure BodyScope where
  /-- The scope of the lambdas that the body declares. -/
  lambdas : List String
  lookup : List String
  class? : Option String
deriving DecidableEq, Repr, Inhabited

/-- The callable that a lambda held by a variable is. -/
def lambdaSymbol (file : FileRef) (scope : List String) (isLocal : Bool) (name : String)
    (parameters : Parameters) : Symbol :=
  let fact : SymbolFact := {
    kind := .lambda
    scope := scope
    spelling := name
    displayName := name
    resultType := "auto"
    isDefinition := true
    sourceFile := file.path
    translationUnit := file.translationUnit }
  .ofFact fact none isLocal parameters.min parameters.max?

/-- A lambda and the name of the variable that holds it. -/
structure NamedLambda where
  name : String
  node : Node

/-- The lambda that a declarator stores in a variable. -/
def namedLambda? (declarator : Node) : Option NamedLambda :=
  if declarator.kind = "init_declarator" then
    match declarator.field? "declarator", declarator.field? "value" with
    | some name, some value =>
      if name.kind = "identifier" ∧ value.kind = "lambda_expression" then
        some ⟨name.text, value⟩
      else none
    | _, _ => none
  else none

/-- Adds a lambda and its body. -/
def addNamedLambda (file : FileRef) (scope : BodyScope) (isLocal : Bool) (table : SymbolTable)
    (lambda : NamedLambda) : SymbolTable :=
  let list := (lambda.node.field? "declarator").bind fun declarator =>
    declarator.field? "parameters"
  let parameters := Parameters.ofNode? list
  let position := table.symbols.length
  let symbol := lambdaSymbol file scope.lambdas isLocal lambda.name parameters
  let table := (table.addSymbol symbol).addLambda ⟨file.index, lambda.node.address⟩ position
  match lambda.node.field? "body" with
  | none => table
  | some body => table.addBody {
      symbol := position
      node := body
      file := file.index
      scope := scope.lookup
      class? := scope.class?
      parameters := typedParameters scope.lookup parameters }

/-- The lambdas that variables hold anywhere in a body. -/
def lambdasIn (body : Node) : List NamedLambda :=
  (body.visit (fun _ => true) Node.isMeaningful).filterMap namedLambda?

/-- Adds a function, its body and the lambdas in it. -/
def addFunction (file : FileRef) (context : Context) (table : SymbolTable) (declaration : Node)
    (shape : FunctionShape) (isDefinition : Bool) (body? : Option Node) : SymbolTable :=
  let (qualifiers, name) := splitQualified shape.name
  let (spelling, form) := declaredSpelling name
  if spelling = "" then table
  else
    let scope := context.scope ++ qualifiers
    let owner? := ownerOf? table context qualifiers
    let kind := functionKind form owner? spelling
    let parameters := Parameters.ofNode? shape.parameters?
    let result := if kind = .function ∨ kind = .method then
        joinTokens ((writtenResult declaration :: shape.resultSuffix).filter (· ≠ ""))
      else ""
    let displayName := spelling ++ "(" ++ String.intercalate ", " parameters.display ++ ")"
    let fact : SymbolFact := {
      kind := kind
      scope := scope
      spelling := spelling
      displayName := displayName
      resultType := result
      isDefinition := isDefinition
      sourceFile := file.path
      translationUnit := file.translationUnit }
    let position := table.symbols.length
    let table := table.addSymbol (.ofFact fact owner? false parameters.min parameters.max?)
    match body? with
    | none => table
    | some body =>
      let table := table.addBody {
        symbol := position
        node := body
        file := file.index
        scope := scope
        class? := owner?
        parameters := typedParameters scope parameters }
      (lambdasIn body).foldl
        (addNamedLambda file ⟨scope ++ [displayName], scope, owner?⟩ true) table

def addFunctionDefinition (file : FileRef) (context : Context) (table : SymbolTable)
    (node : Node) : SymbolTable :=
  match (node.field? "declarator").bind functionShape? with
  | none => table
  | some shape =>
    let body? := node.field? "body"
    let isDefaulted := node.children.any (·.kind == "default_method_clause")
    addFunction file context table node shape (body?.isSome || isDefaulted) body?

/-- The callable that a variable holding a function pointer is. -/
def pointerSymbol (file : FileRef) (context : Context) (node function name : Node) : Symbol :=
  let type := writtenResult node
  let isExternal := node.namedChildren.any fun child =>
    child.kind == "storage_class_specifier" && child.text == "extern"
  let fact : SymbolFact := {
    kind := .functionPointer (joinTokens [type, canonicalText [] function])
    scope := context.scope
    spelling := name.text
    displayName := name.text
    resultType := type
    isDefinition := !isExternal
    sourceFile := file.path
    translationUnit := file.translationUnit }
  .ofFact fact context.class? false 0 none

def addVariable (context : Context) (table : SymbolTable) (node declarator : Node) : SymbolTable :=
  match declaredName? declarator, (node.field? "type").bind (TypeName.ofNode? context.scope) with
  | some name, some type =>
    match context.class? with
    | some className => table.addField className name.text type
    | none => table.addGlobal (joinScope (context.scope ++ [name.text])) type
  | _, _ => table

/-- Adds what one declarator of a declaration declares. -/
def addDeclarator (file : FileRef) (context : Context) (node : Node) (table : SymbolTable)
    (declarator : Node) : SymbolTable :=
  match functionShape? declarator with
  | some shape => addFunction file context table node shape false none
  | none =>
    match functionPointer? declarator with
    | some (function, name) =>
      table.addSymbol (pointerSymbol file context node function name)
    | none =>
      match namedLambda? declarator with
      | some lambda =>
        addNamedLambda file ⟨context.scope, context.scope, context.class?⟩ false table lambda
      | none => addVariable context table node declarator

def addSite (file : FileRef) (table : SymbolTable) : Site → SymbolTable
  | .openNamespace names => table.addNamespaces names
  | .openClass qualified bases => table.addBases qualified bases
  | .functionDefinition node context => addFunctionDefinition file context table node
  | .declaration node context =>
    (node.fieldChildren "declarator").foldl (addDeclarator file context node) table

def addFile (translationUnit : Path) (table : SymbolTable) (file : SourceFile × Nat) :
    SymbolTable :=
  let ref : FileRef := ⟨file.2, file.1.path, translationUnit⟩
  (sites ⟨[], none⟩ (Node.ofTree file.1.tree)).foldl (addSite ref) table

/-- The table of a unit, from its files in loading order. -/
def SymbolTable.ofFiles (files : List SourceFile) (translationUnit : Path) : SymbolTable :=
  files.zipIdx.foldl (addFile translationUnit) .empty

end CallGraph.Cpp
