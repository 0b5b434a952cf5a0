import CallGraph.Cpp.Call
import Mathlib.Data.List.Induction

/-!
# What calls are resolved to

Main result: `Body.callees_accounted`. Each callee of a body is reached at one of its nodes: either
the node passes a number of arguments that the callee admits, or it calls a variable that the body
has declared before, and the callee is the lambda that the variable holds.

Whatever is found by its spelling is in the table and admits the arguments
(`View.qualified?_admits` and the lemmas like it). The variables of a body are declared node by
node, and each of them that holds a lambda was given one of the table (`View.Progress.Accounted`).
So all callees are in the table (`Body.callees_known`).
-/
namespace CallGraph.Cpp

theorem mem_of_lookup_eq_some {α β : Type} [BEq α] [LawfulBEq α] {pairs : List (α × β)} {key : α}
    {value : β} (found : pairs.lookup key = some value) : (key, value) ∈ pairs := by
  obtain ⟨before, after, rfl, _⟩ := List.lookup_eq_some_iff.mp found
  simp

/-! ### Callables found by their spelling -/

/-- The callable at a position accepts so many arguments, and is local only if it is a member. -/
def SymbolTable.Admits (table : SymbolTable) (position arguments : Nat) : Prop :=
  ∃ symbol, table.symbols[position]? = some symbol ∧ symbol.accepts arguments = true ∧
    (symbol.isLocal = true → symbol.owner?.isSome = true)

namespace SymbolTable

variable {table : SymbolTable} {arguments position : Nat}

theorem Admits.lt (admits : table.Admits position arguments) : position < table.symbols.length := by
  obtain ⟨symbol, found, _⟩ := admits
  exact (List.getElem?_eq_some_iff.mp found).1

theorem mem_named {spelling : String} {entry : Nat × Symbol}
    (member : entry ∈ table.named spelling) :
    table.symbols[entry.1]? = some entry.2 := by
  obtain ⟨position, _, found⟩ := List.mem_filterMap.mp member
  obtain ⟨symbol, known, rfl⟩ := Option.map_eq_some_iff.mp found
  exact known

/-- What is searched for is found with what it was searched for. -/
theorem findNamed?_spec {spelling : String} {accept : Symbol → Bool}
    (found : table.findNamed? spelling accept = some position) :
    ∃ symbol, table.symbols[position]? = some symbol ∧ accept symbol = true := by
  obtain ⟨entry, first, rfl⟩ := Option.map_eq_some_iff.mp found
  have accepted := List.find?_some first
  exact ⟨entry.2, mem_named (List.mem_of_find?_eq_some first), accepted⟩

theorem member?_admits {className name : String}
    (found : table.member? className name arguments = some position) :
    table.Admits position arguments := by
  obtain ⟨owner, _, named⟩ := List.exists_of_findSome?_eq_some found
  obtain ⟨symbol, known, accepted⟩ := findNamed?_spec named
  obtain ⟨owned, accepts⟩ := Bool.and_eq_true_iff.mp accepted
  exact ⟨symbol, known, accepts, fun _ => by simp [beq_iff_eq.mp owned]⟩

theorem constructor?_admits {className : String}
    (found : table.constructor? className arguments = some position) :
    table.Admits position arguments := by
  obtain ⟨symbol, known, accepted⟩ := findNamed?_spec found
  obtain ⟨isMember, accepts⟩ := Bool.and_eq_true_iff.mp accepted
  obtain ⟨_, owned⟩ := Bool.and_eq_true_iff.mp isMember
  exact ⟨symbol, known, accepts, fun _ => by simp [beq_iff_eq.mp owned]⟩

end SymbolTable

namespace View

variable {view : View} {arguments position : Nat}

theorem free?_admits {name : String} (found : view.free? name arguments = some position) :
    view.table.Admits position arguments := by
  unfold free? at found
  dsimp only at found
  generalize candidates : (view.table.named name).filter _ = among at found
  have known (entry) (member : entry ∈ among) : view.table.Admits entry.1 arguments := by
    rw [← candidates] at member
    obtain ⟨named, accepted⟩ := List.mem_filter.mp member
    obtain ⟨isFree, accepts⟩ := Bool.and_eq_true_iff.mp accepted
    obtain ⟨shared, _⟩ := Bool.and_eq_true_iff.mp isFree
    refine ⟨entry.2, SymbolTable.mem_named named, accepts, fun isLocal => ?_⟩
    rw [isLocal] at shared
    cases shared
  -- In a scope around the body or in none of them, it is one of the candidates.
  split at found
  · rename_i inScope
    obtain rfl := Option.some.inj found
    obtain ⟨scope, _, chosen⟩ := List.exists_of_findSome?_eq_some inScope
    obtain ⟨entry, first, rfl⟩ := Option.map_eq_some_iff.mp chosen
    exact known entry (List.mem_of_find?_eq_some first)
  · split at found
    · cases found
    · split at found
      · obtain rfl := Option.some.inj found
        exact known _ List.mem_cons_self
      · cases found

theorem qualifiedIn?_admits {spelling : String} {scope : List String}
    (found : view.qualifiedIn? spelling arguments scope = some position) :
    view.table.Admits position arguments := by
  unfold qualifiedIn? at found
  dsimp only at found
  -- A member of the class, a constructor of the class within, or a callable of the scope.
  rcases Option.or_eq_some_iff.mp found with member | ⟨_, rest⟩
  · split at member
    · exact SymbolTable.member?_admits member
    · cases member
  · rcases Option.or_eq_some_iff.mp rest with constructor | ⟨_, named⟩
    · split at constructor
      · exact SymbolTable.constructor?_admits constructor
      · cases constructor
    · obtain ⟨symbol, known, accepted⟩ := SymbolTable.findNamed?_spec named
      obtain ⟨isShared, _⟩ := Bool.and_eq_true_iff.mp accepted
      obtain ⟨accepts, shared⟩ := Bool.and_eq_true_iff.mp isShared
      refine ⟨symbol, known, accepts, fun isLocal => ?_⟩
      rw [isLocal] at shared
      cases shared

theorem qualified?_admits {function : Node}
    (found : view.qualified? function arguments = some position) :
    view.table.Admits position arguments := by
  obtain ⟨scope, _, inScope⟩ := List.exists_of_findSome?_eq_some found
  exact qualifiedIn?_admits inScope

/-- An unqualified name is that of a variable that holds a lambda, or it is looked up. -/
theorem unqualified?_admits {name : String}
    (found : view.unqualified? name arguments = some position) :
    view.locals.lookup name = some (.lambda position) ∨ view.table.Admits position arguments := by
  unfold unqualified? at found
  -- Variables hide members, members hide classes, and classes hide functions.
  split at found
  · rename_i symbol held
    obtain rfl := Option.some.inj found
    exact .inl held
  · cases found
  · refine .inr ?_
    split at found
    · rename_i member
      obtain ⟨className, _, reached⟩ := Option.bind_eq_some_iff.mp member
      obtain rfl := Option.some.inj found
      exact SymbolTable.member?_admits reached
    · split at found
      · exact SymbolTable.constructor?_admits found
      · exact free?_admits found

end View

/-! ### What a node calls and passes -/

/-- The node is a call whose function is an unqualified name, with template arguments or without. -/
inductive CallsByName (node : Node) : String → Prop where
  | plain {function : Node} (isCall : node.kind = "call_expression")
    (called : node.field? "function" = some function) (isName : function.kind = "identifier") :
    CallsByName node function.text
  | template {function name : Node} (isCall : node.kind = "call_expression")
    (called : node.field? "function" = some function)
    (isTemplate : function.kind = "template_function")
    (named : function.field? "name" = some name) :
    CallsByName node name.text

/-- The node calls something with so many arguments: a call and the creation of an object pass what
is in their lists, a deletion passes nothing, and the declaration of a variable passes what stands
behind its name, which may be nothing. -/
inductive Passes (node : Node) : Nat → Prop where
  | call (isCall : node.kind = "call_expression") :
    Passes node (argumentCount (node.field? "arguments"))
  | new (isNew : node.kind = "new_expression") :
    Passes node (argumentCount (node.field? "arguments"))
  | delete (isDelete : node.kind = "delete_expression") : Passes node 0
  | bare {declarator : Node} (isDeclaration : node.kind = "declaration")
    (declares : declarator ∈ node.fieldChildren "declarator")
    (isName : declarator.kind = "identifier") : Passes node 0
  | initialised {declarator list : Node} (isDeclaration : node.kind = "declaration")
    (declares : declarator ∈ node.fieldChildren "declarator")
    (isInit : declarator.kind = "init_declarator") (value : declarator.field? "value" = some list)
    (isList : list.kind = "argument_list" ∨ list.kind = "initializer_list") :
    Passes node list.namedChildren.length

/-- The declaration declares a variable that holds the lambda at a position. -/
def SymbolTable.DeclaresLambda (table : SymbolTable) (file : Nat) (declaration : Node)
    (name : String) (position : Nat) : Prop :=
  declaration.kind = "declaration" ∧ ∃ declarator ∈ declaration.fieldChildren "declarator",
    declarator.kind = "init_declarator" ∧ ∃ holder lambda,
      declarator.field? "declarator" = some holder ∧ holder.text = name ∧
      declarator.field? "value" = some lambda ∧
      (⟨file, lambda.address⟩, position) ∈ table.namedLambdas

/-- How a node of a body reaches a callable: by what it passes, or through a variable that is
declared at one of the earlier nodes. -/
inductive Body.Reaches (table : SymbolTable) (body : Body) (earlier : List Node) (node : Node)
    (position : Nat) : Prop where
  | admitted {arguments : Nat} (passes : Passes node arguments)
    (admits : table.Admits position arguments)
  | held {name : String} {declaration : Node} (calls : CallsByName node name)
    (before : declaration ∈ earlier)
    (declares : table.DeclaresLambda body.file declaration name position)

namespace View

section Node

variable {view : View} {node declarator : Node} {position : Nat}

theorem callee?_admits (isCall : node.kind = "call_expression")
    (found : view.callee? node = some position) :
    (∃ name, CallsByName node name ∧ view.locals.lookup name = some (.lambda position)) ∨
      view.table.Admits position (argumentCount (node.field? "arguments")) := by
  obtain ⟨function, inField, called⟩ := Option.bind_eq_some_iff.mp found
  dsimp only at called
  -- An identifier, a template, a qualified name, or a member of an object.
  split at called
  · rename_i isName
    exact (unqualified?_admits called).imp_left fun held => ⟨_, .plain isCall inField isName, held⟩
  · split at called
    · rename_i isTemplate
      obtain ⟨name, named, reached⟩ := Option.bind_eq_some_iff.mp called
      exact (unqualified?_admits reached).imp_left fun held =>
        ⟨_, .template isCall inField isTemplate named, held⟩
    · split at called
      · exact .inr (qualified?_admits called)
      · split at called
        · obtain ⟨receiver, _, onReceiver⟩ := Option.bind_eq_some_iff.mp called
          obtain ⟨field, _, onField⟩ := Option.bind_eq_some_iff.mp onReceiver
          obtain ⟨className, _, reached⟩ := Option.bind_eq_some_iff.mp onField
          exact .inr (SymbolTable.member?_admits reached)
        · cases called

theorem newCallee?_admits (found : view.newCallee? node = some position) :
    view.table.Admits position (argumentCount (node.field? "arguments")) := by
  obtain ⟨type, _, ofType⟩ := Option.bind_eq_some_iff.mp found
  obtain ⟨typeName, _, named⟩ := Option.bind_eq_some_iff.mp ofType
  obtain ⟨className, _, reached⟩ := Option.bind_eq_some_iff.mp named
  exact SymbolTable.constructor?_admits reached

theorem deleteCallee?_admits (found : view.deleteCallee? node = some position) :
    view.table.Admits position 0 := by
  obtain ⟨operand, _, ofOperand⟩ := Option.bind_eq_some_iff.mp found
  obtain ⟨className, _, reached⟩ := Option.bind_eq_some_iff.mp ofOperand
  exact SymbolTable.member?_admits reached

theorem passes_of_constructionArguments? (isDeclaration : node.kind = "declaration")
    (declares : declarator ∈ node.fieldChildren "declarator") {arguments : Nat}
    (passed : constructionArguments? declarator = some arguments) : Passes node arguments := by
  unfold constructionArguments? at passed
  split at passed
  · rename_i isName
    obtain rfl := Option.some.inj passed
    exact .bare isDeclaration declares isName
  · split at passed
    · rename_i isInit
      obtain ⟨list, value, counted⟩ := Option.bind_eq_some_iff.mp passed
      split at counted
      · rename_i isList
        obtain rfl := Option.some.inj counted
        exact .initialised isDeclaration declares isInit value isList
      · cases counted
    · cases passed

/-- The constructor that a declared variable calls. -/
theorem constructed_admits (isDeclaration : node.kind = "declaration")
    (declares : declarator ∈ node.fieldChildren "declarator") {className? : Option String}
    (found : (className?.bind fun className => (constructionArguments? declarator).bind
      (view.table.constructor? className)) = some position) :
    ∃ arguments, Passes node arguments ∧ view.table.Admits position arguments := by
  obtain ⟨className, _, ofClass⟩ := Option.bind_eq_some_iff.mp found
  obtain ⟨arguments, passed, reached⟩ := Option.bind_eq_some_iff.mp ofClass
  exact ⟨arguments, passes_of_constructionArguments? isDeclaration declares passed,
    SymbolTable.constructor?_admits reached⟩

theorem declaresLambda_of_lambdaVariable? (isDeclaration : node.kind = "declaration")
    (declares : declarator ∈ node.fieldChildren "declarator") {name : String}
    (held : view.lambdaVariable? declarator = some (name, position)) :
    view.table.DeclaresLambda view.body.file node name position := by
  unfold lambdaVariable? at held
  split at held
  · rename_i isInit
    split at held
    · rename_i holder value inName inValue
      obtain ⟨symbol, named, same⟩ := Option.map_eq_some_iff.mp held
      obtain ⟨rfl, rfl⟩ := Prod.mk.inj same
      exact ⟨isDeclaration, declarator, declares, isInit, holder, value, inName, rfl, inValue,
        mem_of_lookup_eq_some named⟩
    · cases held
  · cases held

end Node

/-! ### What a body has reached -/

namespace Progress

/-- All that has been reached and all that the variables hold is accounted for by the nodes of the
body so far. -/
structure Accounted (table : SymbolTable) (body : Body) (nodes : List Node) (progress : Progress) :
    Prop where
  table_eq : progress.view.table = table
  body_eq : progress.view.body = body
  holds : ∀ name position, (name, Local.lambda position) ∈ progress.view.locals →
    ∃ declaration ∈ nodes, table.DeclaresLambda body.file declaration name position
  callees : ∀ position ∈ progress.callees, ∃ earlier node later,
    nodes = earlier ++ node :: later ∧ body.Reaches table earlier node position

variable {table : SymbolTable} {body : Body} {nodes : List Node} {progress : Progress}

theorem Accounted.start (table : SymbolTable) (body : Body) :
    Accounted table body [] ⟨.ofBody table body, []⟩ where
  table_eq := rfl
  body_eq := rfl
  -- Parameters have types, none of them is known to hold a lambda.
  holds name position member := by simp [ofBody] at member
  callees := by simp

/-- One more node changes nothing about what has been reached before. -/
theorem Accounted.widen (accounted : progress.Accounted table body nodes) (node : Node) :
    progress.Accounted table body (nodes ++ [node]) where
  table_eq := accounted.table_eq
  body_eq := accounted.body_eq
  holds name position member := by
    obtain ⟨declaration, before, declares⟩ := accounted.holds name position member
    exact ⟨declaration, List.mem_append_left _ before, declares⟩
  callees position member := by
    obtain ⟨earlier, other, later, rfl, reaches⟩ := accounted.callees position member
    exact ⟨earlier, other, later ++ [node], by simp, reaches⟩

theorem Accounted.reach {node : Node} (accounted : progress.Accounted table body (nodes ++ [node]))
    {callee? : Option Nat}
    (reaches : ∀ position, callee? = some position → body.Reaches table nodes node position) :
    (progress.reach callee?).Accounted table body (nodes ++ [node]) where
  table_eq := accounted.table_eq
  body_eq := accounted.body_eq
  holds := accounted.holds
  callees position member := by
    rcases List.mem_append.mp member with old | new
    · exact accounted.callees position old
    · exact ⟨nodes, node, [], rfl, reaches position (Option.mem_toList.mp new)⟩

theorem Accounted.declare {node : Node} (accounted : progress.Accounted table body (nodes ++ [node]))
    (name : String) {meaning : Local}
    (declares : ∀ position, meaning = .lambda position →
      table.DeclaresLambda body.file node name position) :
    Accounted table body (nodes ++ [node])
      { progress with view := progress.view.declare name meaning } where
  table_eq := accounted.table_eq
  body_eq := accounted.body_eq
  holds other position member := by
    rcases List.mem_cons.mp member with new | old
    · obtain ⟨rfl, same⟩ := Prod.mk.inj new
      exact ⟨node, by simp, declares position same.symm⟩
    · exact accounted.holds other position old
  callees := accounted.callees

/-- The constructor that a variable calls is looked up with what its declarator passes. -/
theorem Accounted.construct {node : Node}
    (accounted : progress.Accounted table body (nodes ++ [node]))
    (isDeclaration : node.kind = "declaration") {declarator : Node}
    (declares : declarator ∈ node.fieldChildren "declarator") (className? : Option String) :
    (progress.reach (className?.bind fun className => (constructionArguments? declarator).bind
      (progress.view.table.constructor? className))).Accounted table body (nodes ++ [node]) := by
  refine accounted.reach fun position found => ?_
  obtain ⟨arguments, passes, admits⟩ := constructed_admits isDeclaration declares found
  exact .admitted passes (accounted.table_eq ▸ admits)

theorem Accounted.declarator {node : Node}
    (accounted : progress.Accounted table body (nodes ++ [node]))
    (isDeclaration : node.kind = "declaration") (type? : Option TypeName) {declarator : Node}
    (declares : declarator ∈ node.fieldChildren "declarator") :
    (progress.declarator type? declarator).Accounted table body (nodes ++ [node]) := by
  unfold Progress.declarator
  -- The new variable holds a lambda, or it has a type and may be constructed.
  split
  · rename_i name position held
    have stored := declaresLambda_of_lambdaVariable? isDeclaration declares held
    rw [accounted.table_eq, accounted.body_eq] at stored
    exact accounted.declare name fun other same => Local.lambda.inj same ▸ stored
  · split
    · exact accounted
    · rename_i name _
      cases type? with
      | none => exact accounted.construct isDeclaration declares _
      | some type =>
        have typed := @Accounted.declare _ _ _ _ _ accounted name.text (.typed type) (by simp)
        exact typed.construct isDeclaration declares _

/-- What a call reaches is held by a variable from before, or looked up. -/
theorem Accounted.callee {node : Node} (accounted : progress.Accounted table body nodes)
    (isCall : node.kind = "call_expression") {position : Nat}
    (found : progress.view.callee? node = some position) :
    body.Reaches table nodes node position := by
  rcases callee?_admits isCall found with ⟨name, calls, held⟩ | admits
  · obtain ⟨declaration, before, declares⟩ :=
      accounted.holds name position (mem_of_lookup_eq_some held)
    exact .held calls before declares
  · exact .admitted (.call isCall) (accounted.table_eq ▸ admits)

theorem Accounted.node (accounted : progress.Accounted table body nodes) (node : Node) :
    (progress.node node).Accounted table body (nodes ++ [node]) := by
  have wider := accounted.widen node
  unfold Progress.node
  split
  · rename_i isCall
    exact wider.reach fun _ found => accounted.callee isCall found
  · split
    · rename_i isNew
      exact wider.reach fun _ found =>
        .admitted (.new isNew) (accounted.table_eq ▸ newCallee?_admits found)
    · split
      · rename_i isDelete
        exact wider.reach fun _ found =>
          .admitted (.delete isDelete) (accounted.table_eq ▸ deleteCallee?_admits found)
      · split
        · rename_i isDeclaration
          exact List.foldlRecOn _ _ wider fun middle known declarator member =>
            known.declarator isDeclaration _ member
        · exact wider

theorem Accounted.foldl (accounted : progress.Accounted table body nodes) (rest : List Node) :
    (rest.foldl Progress.node progress).Accounted table body (nodes ++ rest) := by
  induction rest generalizing nodes progress with
  | nil => simpa using accounted
  | cons node rest ih => simpa using ih (accounted.node node)

end Progress

end View

/-- Each callee of a body is reached at one of its nodes. -/
theorem Body.callees_accounted (table : SymbolTable) (body : Body) :
    ∀ position ∈ body.callees table, ∃ earlier node later,
      body.ownNodes table = earlier ++ node :: later ∧ body.Reaches table earlier node position :=
  ((View.Progress.Accounted.start table body).foldl (body.ownNodes table)).callees

/-- Whatever a body calls is in the table. -/
theorem Body.callees_known {table : SymbolTable}
    (lambdas : ∀ entry ∈ table.namedLambdas, entry.2 < table.symbols.length) (body : Body) :
    ∀ position ∈ body.callees table, position < table.symbols.length := by
  intro position member
  obtain ⟨earlier, node, later, _, reaches⟩ := body.callees_accounted table position member
  cases reaches with
  | admitted _ admits => exact admits.lt
  | held _ _ declares =>
    obtain ⟨_, _, _, _, _, _, _, _, _, named⟩ := declares
    exact lambdas _ named

end CallGraph.Cpp
