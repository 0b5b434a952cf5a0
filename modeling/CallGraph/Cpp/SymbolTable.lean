import CallGraph.Callable
import CallGraph.Cpp.TypeName
import CallGraph.Fresh

/-!
# Symbol table

What is known of a translation unit once its declarations have been read: the callables in the
order they were met, the classes with their bases and fields, the namespaces and the global
variables, and the bodies in which calls are to be looked for.
-/
namespace CallGraph.Cpp

structure Symbol where
  fact : SymbolFact
  id : CallableId
  /-- The qualified name of the class, for members. -/
  owner? : Option String
  /-- Whether the callable is a lambda that only its own function body can reach. -/
  isLocal : Bool
  minArguments : Nat
  /-- The most arguments a call may pass, if there is a limit. -/
  maxArguments? : Option Nat
deriving DecidableEq, Repr, Inhabited

/-- The table entry of a callable; its identity is that of the fact. -/
def Symbol.ofFact (fact : SymbolFact) (owner? : Option String) (isLocal : Bool)
    (minArguments : Nat) (maxArguments? : Option Nat) : Symbol :=
  ⟨fact, fact.id, owner?, isLocal, minArguments, maxArguments?⟩

/-- Whether a call may pass so many arguments. -/
def Symbol.accepts (symbol : Symbol) (arguments : Nat) : Bool :=
  symbol.minArguments ≤ arguments && symbol.maxArguments?.all (arguments ≤ ·)

/-- The identity of a node among all files of a unit. -/
structure NodeKey where
  file : Nat
  address : List Nat
deriving DecidableEq, Repr, Inhabited

/-- A body in which calls are to be looked for. -/
structure Body where
  /-- The position of the callable that the body belongs to. -/
  symbol : Nat
  node : Node
  file : Nat
  /-- The scope from which names in the body are looked up. -/
  scope : List String
  /-- The class whose members the body sees. -/
  class? : Option String
  parameters : List (String × TypeName)
deriving Repr, Inhabited

structure ClassInfo where
  bases : List TypeName
  /-- The types of the fields, the last declaration of a name first. -/
  fields : List (String × TypeName)
deriving DecidableEq, Repr, Inhabited

structure SymbolTable where
  symbols : List Symbol
  /-- The positions of the callables with a spelling, in increasing order. -/
  bySpelling : List (String × List Nat)
  classes : List (String × ClassInfo)
  namespaces : List String
  /-- The types of variables outside classes, the last declaration of a name first. -/
  globals : List (String × TypeName)
  bodies : List Body
  /-- The lambdas that a variable holds, with the position of the callable. -/
  namedLambdas : List (NodeKey × Nat)
deriving Repr, Inhabited

/-- `pairs` with the value of `key` changed; a key that is not there is added at the end. -/
def alterValue {α : Type} (key : String) (initial : α) (change : α → α) :
    List (String × α) → List (String × α)
  | [] => [(key, change initial)]
  | (name, value) :: pairs =>
    if name = key then (name, change value) :: pairs
    else (name, value) :: alterValue key initial change pairs

namespace SymbolTable

def empty : SymbolTable := ⟨[], [], [], [], [], [], []⟩

def class? (table : SymbolTable) (name : String) : Option ClassInfo := table.classes.lookup name

def hasClass (table : SymbolTable) (name : String) : Bool := (table.class? name).isSome

/-- The class that a type names, looked up from the scope it is written in outwards. -/
def resolveClass? (table : SymbolTable) (type : TypeName) : Option String :=
  type.names.findSome? fun name =>
    ((enclosingScopes type.scope).map fun scope => joinScope (scope ++ name)).find? table.hasClass

/-- The callables with a spelling, with their positions. -/
def named (table : SymbolTable) (spelling : String) : List (Nat × Symbol) :=
  ((table.bySpelling.lookup spelling).getD []).filterMap fun position =>
    table.symbols[position]?.map fun symbol => (position, symbol)

def bases (table : SymbolTable) (name : String) : List String :=
  match table.class? name with
  | some info => info.bases.filterMap table.resolveClass?
  | none => []

def classNames (table : SymbolTable) : List String := table.classes.map Prod.fst

theorem mem_classNames_of_hasClass {table : SymbolTable} {name : String}
    (known : table.hasClass name) : name ∈ table.classNames := by
  unfold hasClass class? at known
  unfold classNames
  revert known
  induction table.classes with
  | nil => simp
  | cons pair rest ih =>
    obtain ⟨key, info⟩ := pair
    intro known
    by_cases here : name = key
    · simp [here]
    · have different : (name == key) = false := by simpa using here
      rw [List.lookup_cons, different] at known
      simp [ih known]

theorem bases_eq_nil {table : SymbolTable} {name : String}
    (unknown : name ∉ table.classNames) : table.bases name = [] := by
  unfold bases
  cases found : table.class? name with
  | none => rfl
  | some info => exact absurd (mem_classNames_of_hasClass (by simp [hasClass, found])) unknown

/--
The classes on `agenda` and all classes above them, in the order in which a search through bases
meets them: a class before its bases, bases in the order they are named, no class twice.
-/
def lineageFrom (table : SymbolTable) (visited agenda : List String) : List String :=
  match agenda with
  | [] => []
  | name :: rest =>
    if name ∈ visited then lineageFrom table visited rest
    else name :: lineageFrom table (name :: visited) (table.bases name ++ rest)
termination_by ((fresh table.classNames visited).length, agenda.length)
decreasing_by
  · apply Prod.Lex.right; simp
  · rename_i new
    by_cases known : name ∈ table.classNames
    · exact Prod.Lex.left _ _ (length_fresh_cons_lt known new)
    · have below : (fresh table.classNames (name :: visited)).length
          ≤ (fresh table.classNames visited).length :=
        length_fresh_le_of_subset fun _ member => List.mem_cons_of_mem _ member
      rw [bases_eq_nil known]
      rcases Nat.lt_or_eq_of_le below with less | same
      · exact Prod.Lex.left _ _ less
      · rw [same]
        apply Prod.Lex.right
        simp

/-- A class and all classes above it, in the order of a search. -/
def lineage (table : SymbolTable) (name : String) : List String := lineageFrom table [] [name]

/-- The first callable with a spelling that satisfies `accept`. -/
def findNamed? (table : SymbolTable) (spelling : String) (accept : Symbol → Bool) : Option Nat :=
  ((table.named spelling).find? fun (_, symbol) => accept symbol).map Prod.fst

/-- The member of a class or of one above it that a call with so many arguments reaches. -/
def member? (table : SymbolTable) (className name : String) (arguments : Nat) : Option Nat :=
  (table.lineage className).findSome? fun owner =>
    table.findNamed? name fun symbol => symbol.owner? == some owner && symbol.accepts arguments

/-- The type of a field of a class or of one above it. -/
def fieldType? (table : SymbolTable) (className name : String) : Option TypeName :=
  (table.lineage className).findSome? fun owner =>
    (table.class? owner).bind fun info => info.fields.lookup name

/-- The constructor of a class that a call with so many arguments reaches. -/
def constructor? (table : SymbolTable) (className : String) (arguments : Nat) : Option Nat :=
  table.findNamed? (lastComponent className) fun symbol =>
    symbol.fact.kind == .constructor && symbol.owner? == some className &&
      symbol.accepts arguments

/-- Adds a callable; its position is the number of callables before it. -/
def addSymbol (table : SymbolTable) (symbol : Symbol) : SymbolTable :=
  { table with
    symbols := table.symbols ++ [symbol]
    bySpelling := alterValue symbol.fact.spelling [] (· ++ [table.symbols.length])
      table.bySpelling }

def addBody (table : SymbolTable) (body : Body) : SymbolTable :=
  { table with bodies := table.bodies ++ [body] }

/-- Adds bases to a class, which becomes known if it was not. -/
def addBases (table : SymbolTable) (name : String) (bases : List TypeName) : SymbolTable :=
  { table with
    classes := alterValue name ⟨[], []⟩
      (fun info => { info with bases := info.bases ++ bases }) table.classes }

/-- Sets the type of a field of a class, which becomes known if it was not. -/
def addField (table : SymbolTable) (className name : String) (type : TypeName) : SymbolTable :=
  { table with
    classes := alterValue className ⟨[], []⟩
      (fun info => { info with fields := (name, type) :: info.fields }) table.classes }

def addGlobal (table : SymbolTable) (qualified : String) (type : TypeName) : SymbolTable :=
  { table with globals := (qualified, type) :: table.globals }

def addNamespaces (table : SymbolTable) (names : List String) : SymbolTable :=
  { table with namespaces := names.foldl (fun known name => known.insert name) table.namespaces }

/-- Notes which callable a lambda node stands for. -/
def addLambda (table : SymbolTable) (key : NodeKey) (symbol : Nat) : SymbolTable :=
  { table with namedLambdas := (key, symbol) :: table.namedLambdas }

end SymbolTable

end CallGraph.Cpp
