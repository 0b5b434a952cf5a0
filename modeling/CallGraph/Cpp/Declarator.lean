import CallGraph.Cpp.Name

/-!
# Function declarators

Where a declarator keeps the name and the parameters of the function it declares, and what a
parameter list says: the spelling of each type and how many arguments a call may pass.
-/
namespace CallGraph.Cpp

/-- The parts of a declarator that declares a function. -/
structure FunctionShape where
  name : Node
  parameters? : Option Node
  /-- Pointer and reference tokens that belong to the result type, outermost first. -/
  resultSuffix : List String

def castParameters? (cast : Node) : Option Node :=
  (cast.field? "declarator").bind fun declarator => declarator.field? "parameters"

/-- The last node of a qualified name; none if the chain of names breaks off. -/
def qualifiedTarget? (node : Node) : Option Node :=
  if node.kind = "qualified_identifier" then
    match _found : node.field? "name" with
    | some name => qualifiedTarget? name
    | none => none
  else some node
termination_by sizeOf node.tree
decreasing_by exact Node.sizeOf_tree_lt (Node.mem_children_of_field? _found)

/-- `shape` with one more token in front of its result suffix. -/
def FunctionShape.addSuffix (token : String) (shape : FunctionShape) : FunctionShape :=
  { shape with resultSuffix := token :: shape.resultSuffix }

/-- The function that a declarator declares. A function pointer is no function. -/
def functionShape? (declarator : Node) : Option FunctionShape :=
  if declarator.kind = "function_declarator" then
    match declarator.field? "declarator" with
    | some name =>
      if name.kind = "parenthesized_declarator" then none
      else some ⟨name, declarator.field? "parameters", []⟩
    | none => none
  else if declarator.kind = "operator_cast" then
    some ⟨declarator, castParameters? declarator, []⟩
  else if declarator.kind = "qualified_identifier" then
    match qualifiedTarget? declarator with
    | some target =>
      if target.kind = "operator_cast" then some ⟨declarator, castParameters? target, []⟩ else none
    | none => none
  else if declarator.kind = "pointer_declarator" then
    match _inField : declarator.field? "declarator" with
    | some inner => (functionShape? inner).map (FunctionShape.addSuffix "*")
    | none => none
  else if declarator.kind = "reference_declarator" then
    match _last : declarator.namedChildren.getLast? with
    | some inner => (functionShape? inner).map (FunctionShape.addSuffix "&")
    | none => none
  else if declarator.kind = "init_declarator" ∨ declarator.kind = "attributed_declarator" then
    match _inField : declarator.field? "declarator" with
    | some inner => functionShape? inner
    | none => none
  else none
termination_by sizeOf declarator.tree
decreasing_by
  · exact Node.sizeOf_tree_lt (Node.mem_children_of_field? _inField)
  · exact Node.sizeOf_tree_lt (Node.namedChildren_subset (List.mem_of_getLast? _last))
  · exact Node.sizeOf_tree_lt (Node.mem_children_of_field? _inField)

/-- The declarator of a function pointer without its initialiser, and the name it declares. -/
def functionPointer? (declarator : Node) : Option (Node × Node) := do
  let function ←
    if declarator.kind = "init_declarator" then declarator.field? "declarator" else some declarator
  if function.kind ≠ "function_declarator" then none
  else
    let inner ← function.field? "declarator"
    if inner.kind ≠ "parenthesized_declarator" then none
    else
      let pointer ← inner.namedChildren.find? (·.kind == "pointer_declarator")
      let name ← declaredName? pointer
      pure (function, name)

/-- What one entry of a parameter list contributes. -/
structure Parameter where
  display : String
  /-- Whether any number of arguments may follow. -/
  isVariadic : Bool
  /-- Whether a call must pass an argument for it. -/
  isRequired : Bool
  /-- Whether a call may pass an argument for it. -/
  isCounted : Bool
  /-- The name of the parameter and the node of its type. -/
  named? : Option (String × Node)

/-- The parameter that an entry of a parameter list declares; punctuation declares none. -/
def parameter? (entry : Node) : Option Parameter :=
  if entry.kind = "..." then some ⟨"...", true, false, false, none⟩
  else if entry.kind ∈ ["parameter_declaration", "optional_parameter_declaration",
      "variadic_parameter_declaration"] then
    let name := (entry.field? "declarator").bind declaredName?
    let value := entry.field? "default_value"
    let signs := if value.isSome then entry.children.filter (·.kind == "=") else []
    let skip := (name.toList ++ value.toList ++ signs).map Node.address
    let isVariadic := entry.kind = "variadic_parameter_declaration"
    some {
      display := canonicalText skip entry
      isVariadic := isVariadic
      isRequired := !isVariadic && value.isNone
      isCounted := true
      named? := name.bind fun name => (entry.field? "type").map fun type => (name.text, type) }
  else none

/-- What a parameter list says. -/
structure Parameters where
  display : List String
  /-- The fewest arguments a call may pass. -/
  min : Nat
  /-- The most arguments a call may pass, if there is a limit. -/
  max? : Option Nat
  /-- Names of parameters with the nodes of their types. -/
  named : List (String × Node)

namespace Parameters

/-- The list of a function without parameters. -/
def none : Parameters := ⟨[], 0, some 0, []⟩

def ofList (parameters : List Parameter) : Parameters where
  display := parameters.map Parameter.display
  min := parameters.countP Parameter.isRequired
  max? := if parameters.any Parameter.isVariadic then Option.none
    else some (parameters.countP Parameter.isCounted)
  named := parameters.filterMap Parameter.named?

/-- Reads a parameter list; `(void)` means no parameters. -/
def ofNode (list : Node) : Parameters :=
  let parameters := ofList (list.children.filterMap parameter?)
  if parameters.display = ["void"] then none else parameters

def ofNode? (list : Option Node) : Parameters := (list.map ofNode).getD none

end Parameters

/-- The number of arguments in an argument or initialiser list; no list means none. -/
def argumentCount (list : Option Node) : Nat :=
  match list with
  | some list => list.namedChildren.length
  | none => 0

end CallGraph.Cpp
