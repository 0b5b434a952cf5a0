import CallGraph.DisplayRoot

/-!
# Callables

A callable is anything a call can reach: a function, a member, a lambda, a function pointer. This
module holds the observations an analysis reports (`SymbolFact`), the records kept of them
(`Callable`), and the rules that derive a record's identity and labels from an observation.
-/
namespace CallGraph

/-- The identity of a callable: all observations of one symbol have the same, in whatever unit. -/
structure CallableId where
  text : String
deriving DecidableEq, Repr, Inhabited

inductive CallableKind where
  | function
  | method
  | constructor
  | destructor
  | conversionOperator
  /-- A variable that holds a function pointer, with its declarator as normalised text. -/
  | functionPointer (declaration : String)
  | lambda
deriving DecidableEq, Repr, Inhabited

namespace CallableKind

/-- The wording shown to people. -/
def label : CallableKind → String
  | .function => "function"
  | .method => "method"
  | .constructor => "constructor"
  | .destructor => "destructor"
  | .conversionOperator => "conversion operator"
  | .functionPointer _ => "function pointer"
  | .lambda => "lambda"

/-- Members belong to a class, all other callables to their translation unit. -/
def isMember : CallableKind → Bool
  | .method | .constructor | .destructor | .conversionOperator => true
  | .function | .functionPointer _ | .lambda => false

end CallableKind

/-- One observation of a callable in a translation unit. -/
structure SymbolFact where
  kind : CallableKind
  /-- Enclosing namespaces, classes and functions, outermost first. -/
  scope : List String
  /-- The bare name, as in `bar`, `~Foo` or `operator int`. -/
  spelling : String
  /-- The name with its parameter list, as in `bar(int, const char *)`. -/
  displayName : String
  resultType : String
  isDefinition : Bool
  sourceFile : Path
  translationUnit : Path
deriving DecidableEq, Repr, Inhabited

/-- An observation: a callable, or a call from one callable to another. -/
inductive Fact where
  | callable (symbol : SymbolFact)
  | call (caller callee : CallableId)
deriving DecidableEq, Repr, Inhabited

/-- The record kept of a callable. -/
structure Callable where
  id : CallableId
  spelling : String
  qualifiedName : String
  kind : CallableKind
  /-- The lifeline that the callable belongs to in a diagram. -/
  participant : String
  isDefinition : Bool
  sourceFile : Path
  /-- The unit whose analysis made the observation, which may include the source file. -/
  translationUnit : Path
deriving DecidableEq, Repr, Inhabited

def joinScope (scope : List String) : String := String.intercalate "::" scope

namespace SymbolFact

/-- The name with its parameters, qualified by the scope. -/
def scopedName (fact : SymbolFact) : String :=
  if fact.scope = [] then fact.displayName else joinScope fact.scope ++ "::" ++ fact.displayName

def id (fact : SymbolFact) : CallableId := ⟨fact.scopedName⟩

/-- The scoped name with the result type before it. -/
def qualifiedName (fact : SymbolFact) : String :=
  match fact.kind with
  | .functionPointer declaration => declaration
  | .constructor | .destructor => "void " ++ fact.scopedName
  | _ => if fact.resultType = "" then fact.scopedName else fact.resultType ++ " " ++ fact.scopedName

/-- Members act for their class, all other callables for their translation unit. -/
def participant (fact : SymbolFact) (root : DisplayRoot) : String :=
  if fact.kind.isMember && fact.scope ≠ [] then joinScope fact.scope
  else root.label fact.translationUnit

def toCallable (fact : SymbolFact) (root : DisplayRoot) : Callable where
  id := fact.id
  spelling := fact.spelling
  qualifiedName := fact.qualifiedName
  kind := fact.kind
  participant := fact.participant root
  isDefinition := fact.isDefinition
  sourceFile := fact.sourceFile
  translationUnit := fact.translationUnit

@[simp] theorem toCallable_id (fact : SymbolFact) (root : DisplayRoot) :
    (fact.toCallable root).id = fact.id := rfl

@[simp] theorem toCallable_isDefinition (fact : SymbolFact) (root : DisplayRoot) :
    (fact.toCallable root).isDefinition = fact.isDefinition := rfl

end SymbolFact

end CallGraph
