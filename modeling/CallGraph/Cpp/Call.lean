import CallGraph.Cpp.Declaration

/-!
# Calls

Finding out which callables a body calls. Names are looked up by the rules of the language as far
as declarations alone decide them; overloads are told apart by the number of arguments, receivers
by the declared types of variables.
-/
namespace CallGraph.Cpp

/-- What a name declared in a body stands for. -/
inductive Local where
  /-- A variable of a type. -/
  | typed (type : TypeName)
  /-- A variable that holds a lambda. -/
  | lambda (symbol : Nat)
deriving DecidableEq, Repr, Inhabited

/-- What a place in a body sees: the unit, the body, and the variables declared so far. -/
structure View where
  table : SymbolTable
  body : Body
  /-- The variables of the body, the last declaration of a name first. -/
  locals : List (String × Local)

namespace View

def declare (view : View) (name : String) (meaning : Local) : View :=
  { view with locals := (name, meaning) :: view.locals }

/-- What the start of a body sees: the parameters. -/
def ofBody (table : SymbolTable) (body : Body) : View where
  table := table
  body := body
  locals := body.parameters.reverse.map fun (name, type) => (name, .typed type)

/-- The class of a variable outside classes, looked up from the body's scope outwards. -/
def globalClass? (view : View) (parts : List String) : Option String :=
  (enclosingScopes view.body.scope).findSome? fun scope =>
    (view.table.globals.lookup (joinScope (scope ++ parts))).bind view.table.resolveClass?

/-- The class of the variable that an identifier names: a local, a field, or a global one. -/
def variableClass? (view : View) (name : String) : Option String :=
  match view.locals.lookup name with
  | some (.typed type) => view.table.resolveClass? type
  | some (.lambda _) => none
  | none =>
    match view.body.class?.bind fun className => view.table.fieldType? className name with
    | some type => view.table.resolveClass? type
    | none => view.globalClass? [name]

/-- The class that an expression evaluates to, through pointers and smart pointers. -/
def expressionClass? (view : View) (expression : Node) : Option String :=
  if expression.kind = "parenthesized_expression" then
    match _inner : expression.namedChildren.head? with
    | some inner => expressionClass? view inner
    | none => none
  else if expression.kind = "pointer_expression" then
    match _inField : expression.field? "argument" with
    | some inner => expressionClass? view inner
    | none => none
  else if expression.kind = "this" then view.body.class?
  else if expression.kind = "identifier" then view.variableClass? expression.text
  else if expression.kind = "qualified_identifier" then
    let (qualifiers, last) := splitQualified expression
    view.globalClass? (qualifiers ++ [last.text])
  else if expression.kind = "field_expression" then
    match _inField : expression.field? "argument" with
    | none => none
    | some receiver =>
      match expressionClass? view receiver, expression.field? "field" with
      | some owner, some field =>
        (view.table.fieldType? owner field.text).bind view.table.resolveClass?
      | _, _ => none
  else none
termination_by sizeOf expression.tree
decreasing_by
  · exact Node.sizeOf_tree_lt (Node.namedChildren_subset (List.mem_of_head? _inner))
  · exact Node.sizeOf_tree_lt (Node.mem_children_of_field? _inField)
  · exact Node.sizeOf_tree_lt (Node.mem_children_of_field? _inField)

/--
The callable outside classes that an unqualified name reaches: one of the innermost scope that has
any, or, if no scope around the body has one, one that is the only one of its name.
-/
def free? (view : View) (name : String) (arguments : Nat) : Option Nat :=
  let candidates := (view.table.named name).filter fun (_, symbol) =>
    !symbol.isLocal && symbol.owner?.isNone && symbol.accepts arguments
  let inScope := (enclosingScopes view.body.scope).findSome? fun scope =>
    (candidates.find? fun (_, symbol) => symbol.fact.scope == scope).map Prod.fst
  match inScope with
  | some found => some found
  | none =>
    match candidates with
    | [] => none
    | (first, symbol) :: others =>
      if others.all fun (_, other) => other.id == symbol.id then some first else none

/-- The callable that a call by an unqualified name reaches. -/
def unqualified? (view : View) (name : String) (arguments : Nat) : Option Nat :=
  match view.locals.lookup name with
  | some (.lambda symbol) => some symbol
  -- A variable hides the callables of its name; what it holds is not known.
  | some (.typed _) => none
  | none =>
    match view.body.class?.bind fun className => view.table.member? className name arguments with
    | some found => some found
    | none =>
      match view.table.resolveClass? (.ofName view.body.scope name) with
      | some className => view.table.constructor? className arguments
      | none => view.free? name arguments

/-- The callable that a qualified name reaches if its qualifiers start in a scope. -/
def qualifiedIn? (view : View) (spelling : String) (arguments : Nat) (scope : List String) :
    Option Nat :=
  let qualified := joinScope scope
  let full := qualified ++ "::" ++ spelling
  let asMember := if view.table.hasClass qualified then
      view.table.member? qualified spelling arguments
    else none
  let asConstructor := if view.table.hasClass full then view.table.constructor? full arguments
    else none
  asMember.or <| asConstructor.or <| view.table.findNamed? spelling fun symbol =>
    symbol.accepts arguments && !symbol.isLocal &&
      match symbol.owner? with
      | some owner => owner == qualified
      | none => symbol.fact.scope == scope

/-- The callable that a call by a qualified name reaches, looked up from the body outwards. -/
def qualified? (view : View) (function : Node) (arguments : Nat) : Option Nat :=
  let (qualifiers, name) := splitQualified function
  (enclosingScopes view.body.scope).findSome? fun scope =>
    view.qualifiedIn? (calleeSpelling name) arguments (scope ++ qualifiers)

/-- The callable that a call expression reaches. -/
def callee? (view : View) (node : Node) : Option Nat := do
  let function ← node.field? "function"
  let arguments := argumentCount (node.field? "arguments")
  if function.kind = "identifier" then view.unqualified? function.text arguments
  else if function.kind = "template_function" then
    let name ← function.field? "name"
    view.unqualified? name.text arguments
  else if function.kind = "qualified_identifier" then view.qualified? function arguments
  else if function.kind = "field_expression" then
    let receiver ← function.field? "argument"
    let field ← function.field? "field"
    let className ← view.expressionClass? receiver
    view.table.member? className (calleeSpelling field) arguments
  else none

/-- The constructor that a `new` expression calls. -/
def newCallee? (view : View) (node : Node) : Option Nat := do
  let type ← node.field? "type"
  let typeName ← TypeName.ofNode? view.body.scope type
  let className ← view.table.resolveClass? typeName
  view.table.constructor? className (argumentCount (node.field? "arguments"))

/-- The destructor that a `delete` expression calls. -/
def deleteCallee? (view : View) (node : Node) : Option Nat := do
  let operand ← node.namedChildren.getLast?
  let className ← view.expressionClass? operand
  view.table.member? className ("~" ++ lastComponent className) 0

/-- The number of arguments with which a declarator constructs an object that it holds by value. -/
def constructionArguments? (declarator : Node) : Option Nat :=
  if declarator.kind = "identifier" then some 0
  else if declarator.kind = "init_declarator" then
    (declarator.field? "value").bind fun value =>
      if value.kind = "argument_list" ∨ value.kind = "initializer_list" then
        some (argumentCount (some value))
      else none
  else none

/-- The variable that a declarator declares for a lambda, if the lambda is a callable. -/
def lambdaVariable? (view : View) (declarator : Node) : Option (String × Nat) :=
  if declarator.kind = "init_declarator" then
    match declarator.field? "declarator", declarator.field? "value" with
    | some name, some value =>
      (view.table.namedLambdas.lookup ⟨view.body.file, value.address⟩).map fun symbol =>
        (name.text, symbol)
    | _, _ => none
  else none

/-- What the rest of a body sees, and the callables reached so far. -/
structure Progress where
  view : View
  callees : List Nat

namespace Progress

/-- Notes a callable that is reached. -/
def reach (progress : Progress) (callee? : Option Nat) : Progress :=
  { progress with callees := progress.callees ++ callee?.toList }

/-- Takes account of one declarator of a declaration with a type. -/
def declarator (type? : Option TypeName) (progress : Progress) (declarator : Node) : Progress :=
  match progress.view.lambdaVariable? declarator with
  | some (name, symbol) => { progress with view := progress.view.declare name (.lambda symbol) }
  | none =>
    match declaredName? declarator with
    | none => progress
    | some name =>
      let view := match type? with
        | some type => progress.view.declare name.text (.typed type)
        | none => progress.view
      let constructed := (type?.bind view.table.resolveClass?).bind fun className =>
        (constructionArguments? declarator).bind (view.table.constructor? className)
      { progress with view }.reach constructed

/-- Takes account of a node of the body. -/
def node (progress : Progress) (node : Node) : Progress :=
  if node.kind = "call_expression" then progress.reach (progress.view.callee? node)
  else if node.kind = "new_expression" then progress.reach (progress.view.newCallee? node)
  else if node.kind = "delete_expression" then progress.reach (progress.view.deleteCallee? node)
  else if node.kind = "declaration" then
    let type? := (node.field? "type").bind (TypeName.ofNode? progress.view.body.scope)
    (node.fieldChildren "declarator").foldl (declarator type?) progress
  else progress

end Progress

end View

/-- Whether a node of a file is a lambda with a body of its own. -/
def SymbolTable.isNamedLambda (table : SymbolTable) (file : Nat) (node : Node) : Bool :=
  (table.namedLambdas.lookup ⟨file, node.address⟩).isSome

/-- The nodes of a body that belong to its callable: those not in a named lambda. -/
def Body.ownNodes (table : SymbolTable) (body : Body) : List Node :=
  if table.isNamedLambda body.file body.node then []
  else body.node.visit (fun _ => true) fun node =>
    node.isMeaningful && !table.isNamedLambda body.file node

/-- The callables that a body calls, in the order of the calls. -/
def Body.callees (table : SymbolTable) (body : Body) : List Nat :=
  ((body.ownNodes table).foldl View.Progress.node ⟨.ofBody table body, []⟩).callees

/-- All calls of a unit: caller and callee, body by body. -/
def SymbolTable.calls (table : SymbolTable) : List (Nat × Nat) :=
  table.bodies.flatMap fun body => (body.callees table).map fun callee => (body.symbol, callee)

end CallGraph.Cpp
