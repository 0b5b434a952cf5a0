import CallGraph.Cpp.Declaration
import Mathlib.Data.List.Induction
import Mathlib.Logic.Relation

/-!
# What declarations add

Everything that reading one declaration can do to a symbol table (`Declares`), and the induction
over all files of a unit: what holds of the empty table and is kept by each addition holds of the
table of the unit (`SymbolTable.ofFiles_induction`).

A callable is added together with its body, so that a body always belongs to the callable added
just before it. Its class, its scope and its kind go together (`Symbol.OwnedByScope`), if those of
the context that it is declared in do.
-/
namespace CallGraph.Cpp

theorem lookup_alterValue {α : Type} (key name : String) (initial : α) (change : α → α)
    (pairs : List (String × α)) :
    (alterValue key initial change pairs).lookup name =
      if name = key then some (change ((pairs.lookup key).getD initial))
      else pairs.lookup name := by
  induction pairs with
  | nil =>
    by_cases same : name = key
    · simp [alterValue, same]
    · have different : (name == key) = false := by simpa using same
      simp [alterValue, List.lookup_cons, different, same]
  | cons pair rest ih =>
    obtain ⟨first, value⟩ := pair
    unfold alterValue
    by_cases here : first = key
    · subst here
      by_cases same : name = first
      · simp [same]
      · have different : (name == first) = false := by simpa using same
        simp [List.lookup_cons, different, same]
    · have different : (key == first) = false := by simpa using Ne.symm here
      rw [if_neg here, List.lookup_cons, List.lookup_cons, List.lookup_cons, different, ih]
      by_cases same : name = key
      · simp [same, different]
      · simp [same]

/-- The entry stands for what its fact describes, which was observed in a file. -/
structure Symbol.ObservedIn (file : FileRef) (symbol : Symbol) : Prop where
  id_eq : symbol.id = symbol.fact.id
  source_eq : symbol.fact.sourceFile = file.path
  unit_eq : symbol.fact.translationUnit = file.translationUnit

theorem Symbol.observedIn_ofFact {file : FileRef} {fact : SymbolFact}
    (source : fact.sourceFile = file.path) (unit : fact.translationUnit = file.translationUnit)
    (owner? : Option String) (isLocal : Bool) (min : Nat) (max? : Option Nat) :
    (Symbol.ofFact fact owner? isLocal min max?).ObservedIn file :=
  ⟨rfl, source, unit⟩

/-- The class of the entry is the one that its scope names. A member has a class, and a constructor
has the name of its class. -/
structure Symbol.OwnedByScope (symbol : Symbol) : Prop where
  owner_eq : ∀ owner, symbol.owner? = some owner → owner = joinScope symbol.fact.scope
  member_owned : symbol.fact.kind.isMember = true → symbol.owner?.isSome = true
  constructor_named : symbol.fact.kind = .constructor →
    ∀ owner, symbol.owner? = some owner → IsLastComponent symbol.fact.spelling owner

/-- The class of the context, if it has one, is the one that its scope names. -/
def Context.ClassNamed (context : Context) : Prop :=
  ∀ name, context.class? = some name → name = joinScope context.scope

/-- The context that a place lies in, if the place may declare functions. -/
def Site.context? : Site → Option Context
  | .functionDefinition _ context => some context
  | .declaration _ context => some context
  | _ => none

def Site.ClassNamed (site : Site) : Prop :=
  ∀ context, site.context? = some context → context.ClassNamed

theorem ownerOf?_eq {table : SymbolTable} {context : Context} {qualifiers : List String}
    {owner : String} (named : context.ClassNamed)
    (owned : ownerOf? table context qualifiers = some owner) :
    owner = joinScope (context.scope ++ qualifiers) := by
  unfold ownerOf? at owned
  split at owned
  · rename_i unqualified
    rw [unqualified, List.append_nil]
    exact named owner owned
  · dsimp only at owned
    split at owned
    · exact (Option.some.inj owned).symm
    · cases owned

theorem isSome_of_isMember_functionKind {form : NameForm} {owner? : Option String}
    {spelling : String} (isMember : (functionKind form owner? spelling).isMember = true) :
    owner?.isSome = true := by
  cases owner? with
  | none => cases isMember
  | some owner => rfl

theorem lastComponent_of_functionKind {form : NameForm} {owner spelling : String}
    (isConstructor : functionKind form (some owner) spelling = .constructor) :
    lastComponent owner = spelling := by
  cases form with
  | plain =>
    by_contra other
    simp [functionKind, other] at isConstructor
  | destructor => cases isConstructor
  | conversion => cases isConstructor

/-- A function belongs to the class that its context and its qualifiers name. -/
theorem Symbol.ownedByScope_function {context : Context} (named : context.ClassNamed)
    {table : SymbolTable} {qualifiers : List String} {form : NameForm} {fact : SymbolFact}
    (scope : fact.scope = context.scope ++ qualifiers)
    (kind : fact.kind = functionKind form (ownerOf? table context qualifiers) fact.spelling)
    (min : Nat) (max? : Option Nat) :
    (Symbol.ofFact fact (ownerOf? table context qualifiers) false min max?).OwnedByScope where
  owner_eq owner owned := scope ▸ ownerOf?_eq named owned
  member_owned isMember := isSome_of_isMember_functionKind (kind ▸ isMember)
  constructor_named isConstructor owner owned := by
    have belongs : ownerOf? table context qualifiers = some owner := owned
    have named : lastComponent owner = fact.spelling :=
      lastComponent_of_functionKind (belongs ▸ kind.symm.trans isConstructor)
    exact named ▸ isLastComponent_lastComponent owner

/-- A variable belongs to the class that it is declared in. -/
theorem ownedByScope_pointerSymbol {context : Context} (named : context.ClassNamed)
    (file : FileRef) (node function name : Node) :
    (pointerSymbol file context node function name).OwnedByScope :=
  ⟨named, nofun, nofun⟩

/-- Lambdas belong to no class. -/
theorem ownedByScope_lambdaSymbol (file : FileRef) (scope : List String) (isLocal : Bool)
    (name : String) (parameters : Parameters) :
    (lambdaSymbol file scope isLocal name parameters).OwnedByScope :=
  ⟨nofun, nofun, nofun⟩

/-- A variable of the site holds the lambda: one in the body of a function, so that the lambda is
local, or one outside of functions. -/
def Site.Stores (lambda : NamedLambda) : Site → Bool → Prop
  | .functionDefinition whole _, isLocal =>
    isLocal = true ∧ ∃ body, whole.field? "body" = some body ∧ lambda ∈ lambdasIn body
  | .declaration whole _, isLocal =>
    isLocal = false ∧ ∃ declarator ∈ whole.fieldChildren "declarator",
      namedLambda? declarator = some lambda
  | _, _ => False

/-- One addition to a table while a site of a file is read. -/
inductive Declares (file : FileRef) (site : Site) : SymbolTable → SymbolTable → Prop where
  /-- What is added is no callable. -/
  | surroundings (table : SymbolTable) (classes : List (String × ClassInfo))
    (namespaces : List String) (globals : List (String × TypeName)) :
    Declares file site table { table with classes, namespaces, globals }
  | callable {table : SymbolTable} {symbol : Symbol} (observed : symbol.ObservedIn file)
    (shared : symbol.isLocal = false) (owned : site.ClassNamed → symbol.OwnedByScope) :
    Declares file site table (table.addSymbol symbol)
  | function {table : SymbolTable} {symbol : Symbol} {body : Body}
    (observed : symbol.ObservedIn file) (shared : symbol.isLocal = false)
    (defined : symbol.fact.isDefinition = true) (own : body.symbol = table.symbols.length)
    (here : body.file = file.index) (owned : site.ClassNamed → symbol.OwnedByScope) :
    Declares file site table ((table.addSymbol symbol).addBody body)
  | lambda (table : SymbolTable) (scope : BodyScope) {isLocal : Bool} {lambda : NamedLambda}
    (stored : site.Stores lambda isLocal) :
    Declares file site table (addNamedLambda file scope isLocal table lambda)

/-- At most one callable is added, and it is noted under its spelling. -/
theorem Declares.entry {file : FileRef} {site : Site} {before after : SymbolTable}
    (addition : Declares file site before after) :
    (after.symbols = before.symbols ∧ after.bySpelling = before.bySpelling) ∨
    ∃ symbol, (site.ClassNamed → symbol.OwnedByScope) ∧
      after.symbols = (before.addSymbol symbol).symbols ∧
      after.bySpelling = (before.addSymbol symbol).bySpelling := by
  cases addition with
  | surroundings => exact .inl ⟨rfl, rfl⟩
  | callable _ _ owned => exact .inr ⟨_, owned, rfl, rfl⟩
  | function _ _ _ _ _ owned => exact .inr ⟨_, owned, rfl, rfl⟩
  | lambda scope =>
    unfold addNamedLambda
    dsimp only
    split
    · exact .inr ⟨_, fun _ => ownedByScope_lambdaSymbol file scope.lambdas _ _ _, rfl, rfl⟩
    · exact .inr ⟨_, fun _ => ownedByScope_lambdaSymbol file scope.lambdas _ _ _, rfl, rfl⟩

/-- Additions, one after the other. -/
abbrev Declared (file : FileRef) (site : Site) : SymbolTable → SymbolTable → Prop :=
  Relation.ReflTransGen (Declares file site)

theorem declared_foldl {α : Type} {file : FileRef} {site : Site}
    {add : SymbolTable → α → SymbolTable} {items : List α}
    (step : ∀ item ∈ items, ∀ table, Declared file site table (add table item))
    (table : SymbolTable) : Declared file site table (items.foldl add table) :=
  items.foldlRecOn add .refl fun middle before item member =>
    before.trans (step item member middle)

section File

variable (file : FileRef) (site : Site) (context : Context) (table : SymbolTable)

/-- A function with a body is a definition, so its body belongs to one. -/
theorem declared_addFunction (declaration : Node) (shape : FunctionShape) {isDefinition : Bool}
    {body? : Option Node} (lies : site.context? = some context)
    (defined : body?.isSome = true → isDefinition = true)
    (stored : ∀ body, body? = some body → ∀ lambda ∈ lambdasIn body, site.Stores lambda true) :
    Declared file site table
      (addFunction file context table declaration shape isDefinition body?) := by
  unfold addFunction
  dsimp only
  split
  · exact .refl
  · cases body? with
    | none =>
      refine .single (.callable (Symbol.observedIn_ofFact rfl rfl _ _ _ _) rfl fun named => ?_)
      exact Symbol.ownedByScope_function (named context lies) rfl rfl _ _
    | some body =>
      refine .head ?_ (declared_foldl (fun lambda member _ => ?_) _)
      · refine .function (Symbol.observedIn_ofFact rfl rfl _ _ _ _) rfl (defined rfl) rfl rfl
          fun named => ?_
        exact Symbol.ownedByScope_function (named context lies) rfl rfl _ _
      · exact .single (.lambda _ _ (stored body rfl lambda member))

theorem declared_addFunctionDefinition (node : Node) :
    Declared file (.functionDefinition node context) table
      (addFunctionDefinition file context table node) := by
  unfold addFunctionDefinition
  split
  · exact .refl
  · refine declared_addFunction file _ context table node _ rfl (fun body => by simp [body]) ?_
    exact fun body inField lambda member => ⟨rfl, body, inField, member⟩

theorem declared_addVariable (node declarator : Node) :
    Declared file site table (addVariable context table node declarator) := by
  unfold addVariable
  split
  · split
    · exact .single (.surroundings table _ _ _)
    · exact .single (.surroundings table _ _ _)
  · exact .refl

theorem declared_addDeclarator {node declarator : Node}
    (member : declarator ∈ node.fieldChildren "declarator") :
    Declared file (.declaration node context) table
      (addDeclarator file context node table declarator) := by
  unfold addDeclarator
  -- A function, a function pointer, a lambda, or another variable.
  split
  · exact declared_addFunction file _ context table node _ rfl nofun nofun
  · split
    · refine .single (.callable (Symbol.observedIn_ofFact rfl rfl _ _ _ _) rfl fun named => ?_)
      exact ownedByScope_pointerSymbol (named context rfl) file node _ _
    · split
      · rename_i lambda held
        exact .single (.lambda _ _ ⟨rfl, declarator, member, held⟩)
      · exact declared_addVariable file _ context table node declarator

theorem declared_addSite : Declared file site table (addSite file table site) := by
  cases site with
  | openNamespace names => exact .single (.surroundings table _ _ _)
  | openClass qualified bases => exact .single (.surroundings table _ _ _)
  | functionDefinition node context =>
    exact declared_addFunctionDefinition file context table node
  | declaration node context =>
    exact declared_foldl (fun _ member table => declared_addDeclarator file context table member) _

end File

/-- The places of a file that declare something. -/
def SourceFile.sites (source : SourceFile) : List Site :=
  Cpp.sites ⟨[], none⟩ (Node.ofTree source.tree)

namespace SymbolTable

/-- What holds of the empty table and is kept by each addition from each site of the files holds of
the table of the unit. -/
theorem ofFiles_induction {files : List SourceFile} {unit : Path} {motive : SymbolTable → Prop}
    (start : motive .empty)
    (step : ∀ source index, (source, index) ∈ files.zipIdx → ∀ site ∈ source.sites,
      ∀ before after, Declares ⟨index, source.path, unit⟩ site before after → motive before →
        motive after) :
    motive (.ofFiles files unit) := by
  refine files.zipIdx.foldlRecOn (addFile unit) start ?_
  rintro table known ⟨source, index⟩ loaded
  refine source.sites.foldlRecOn (addSite ⟨index, source.path, unit⟩) known ?_
  intro table known site met
  have declared := declared_addSite ⟨index, source.path, unit⟩ site table
  generalize addSite ⟨index, source.path, unit⟩ table site = after at declared ⊢
  induction declared with
  | refl => exact known
  | tail _ addition ih => exact step source index loaded site met _ _ addition ih

end SymbolTable

/-! ### The table of a unit -/

/-- The callables of a table were observed in the files of a unit, every body belongs to a
definition, and every lambda that a variable holds is a callable. -/
structure Coherent (files : List SourceFile) (unit : Path) (table : SymbolTable) : Prop where
  id_eq : ∀ symbol ∈ table.symbols, symbol.id = symbol.fact.id
  source_loaded : ∀ symbol ∈ table.symbols, symbol.fact.sourceFile ∈ files.map SourceFile.path
  unit_eq : ∀ symbol ∈ table.symbols, symbol.fact.translationUnit = unit
  defined : ∀ body ∈ table.bodies, ∃ symbol, table.symbols[body.symbol]? = some symbol ∧
    symbol.fact.isDefinition = true
  lambda_known : ∀ entry ∈ table.namedLambdas, entry.2 < table.symbols.length

namespace Coherent

variable {files : List SourceFile} {unit : Path} {file : FileRef} {table : SymbolTable}

theorem empty (files : List SourceFile) (unit : Path) : Coherent files unit .empty := by
  constructor <;> simp [SymbolTable.empty]

theorem addSymbol (coherent : Coherent files unit table)
    (loaded : file.path ∈ files.map SourceFile.path) (same : file.translationUnit = unit)
    {symbol : Symbol} (observed : symbol.ObservedIn file) :
    Coherent files unit (table.addSymbol symbol) := by
  have cases_mem {other : Symbol} (member : other ∈ table.symbols ++ [symbol]) :
      other ∈ table.symbols ∨ other = symbol := by simpa using member
  constructor
  · intro other member
    obtain old | rfl := cases_mem member
    · exact coherent.id_eq other old
    · exact observed.id_eq
  · intro other member
    obtain old | rfl := cases_mem member
    · exact coherent.source_loaded other old
    · exact observed.source_eq ▸ loaded
  · intro other member
    obtain old | rfl := cases_mem member
    · exact coherent.unit_eq other old
    · exact observed.unit_eq.trans same
  · -- Callables are added at the end, so the old ones keep their positions.
    intro body member
    obtain ⟨owner, found, defined⟩ := coherent.defined body member
    have known : body.symbol < table.symbols.length := (List.getElem?_eq_some_iff.mp found).1
    exact ⟨owner, (List.getElem?_append_left known).trans found, defined⟩
  · intro entry member
    have known := coherent.lambda_known entry member
    simp only [SymbolTable.addSymbol, List.length_append, List.length_singleton]
    exact Nat.lt_succ_of_lt known

theorem addBody (coherent : Coherent files unit table) {body : Body} {symbol : Symbol}
    (found : table.symbols[body.symbol]? = some symbol)
    (defined : symbol.fact.isDefinition = true) : Coherent files unit (table.addBody body) where
  id_eq := coherent.id_eq
  source_loaded := coherent.source_loaded
  unit_eq := coherent.unit_eq
  defined other member := by
    rcases List.mem_append.mp member with old | new
    · exact coherent.defined other old
    · obtain rfl := List.mem_singleton.mp new
      exact ⟨symbol, found, defined⟩
  lambda_known := coherent.lambda_known

theorem addLambda (coherent : Coherent files unit table) (key : NodeKey) {position : Nat}
    (known : position < table.symbols.length) :
    Coherent files unit (table.addLambda key position) where
  id_eq := coherent.id_eq
  source_loaded := coherent.source_loaded
  unit_eq := coherent.unit_eq
  defined := coherent.defined
  lambda_known entry member := by
    rcases List.mem_cons.mp member with rfl | old
    · exact known
    · exact coherent.lambda_known entry old

theorem addNamedLambda (coherent : Coherent files unit table)
    (loaded : file.path ∈ files.map SourceFile.path) (same : file.translationUnit = unit)
    (scope : BodyScope) (isLocal : Bool) (lambda : NamedLambda) :
    Coherent files unit (Cpp.addNamedLambda file scope isLocal table lambda) := by
  unfold Cpp.addNamedLambda
  dsimp only
  generalize Parameters.ofNode? _ = parameters
  generalize added : lambdaSymbol file scope.lambdas isLocal lambda.name parameters = symbol
  have observed : symbol.ObservedIn file := by
    subst added
    exact Symbol.observedIn_ofFact rfl rfl _ _ _ _
  have defined : symbol.fact.isDefinition = true := by
    subst added
    rfl
  have last : table.symbols.length < (table.addSymbol symbol).symbols.length := by
    simp [SymbolTable.addSymbol]
  have named := (coherent.addSymbol loaded same observed).addLambda
    ⟨file.index, lambda.node.address⟩ last
  split
  · exact named
  · exact named.addBody (List.getElem?_concat_length) defined

theorem declares {site : Site} {before after : SymbolTable}
    (coherent : Coherent files unit before) (loaded : file.path ∈ files.map SourceFile.path)
    (same : file.translationUnit = unit) (addition : Declares file site before after) :
    Coherent files unit after := by
  cases addition with
  | surroundings => exact { coherent with }
  | callable observed => exact coherent.addSymbol loaded same observed
  | function observed _ defined own =>
    refine (coherent.addSymbol loaded same observed).addBody ?_ defined
    rw [own]
    exact List.getElem?_concat_length
  | lambda scope => exact coherent.addNamedLambda loaded same scope _ _

end Coherent

theorem SymbolTable.coherent_ofFiles (files : List SourceFile) (unit : Path) :
    Coherent files unit (.ofFiles files unit) := by
  refine ofFiles_induction (.empty files unit) fun source index member _ _ before after addition
    coherent => coherent.declares ?_ rfl addition
  exact List.mem_map_of_mem (List.fst_mem_of_mem_zipIdx member)

end CallGraph.Cpp
