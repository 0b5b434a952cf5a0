import CallGraph.Proofs.Cpp.Soundness
import CallGraph.Proofs.Cpp.Spellings
import CallGraph.Proofs.Cpp.Surroundings
import Mathlib.Data.List.Sort

/-!
# The table of a unit is well formed

Main result: `wellFormed_ofFiles`. Whatever the trees of the files are, the parts of the table fit
together. The callables are noted under their spellings; the class of a callable is the one that its
scope names; each body belongs to a definition and lies in a file; and each lambda that a variable
holds is one node of a file and one callable.

So calls can be resolved by spelling and owner alone. The look-up of a constructor asks for callables
with the last component of the class for a name, and misses none (`constructor?_eq_some_iff`).
-/
namespace CallGraph.Cpp

/-! ### Callables and their classes -/

/-- A name has one last component. -/
theorem IsLastComponent.unique {component component' qualified : String}
    (one : IsLastComponent component qualified) (other : IsLastComponent component' qualified) :
    component = component' := by
  have ends {short long : String} (last : IsLastComponent short qualified)
      (whole : IsLastComponent long qualified) : ∃ between, long = between ++ short := by
    rcases whole.ends with rfl | ⟨outer, split⟩
    · rcases last.ends with same | ⟨outer, split⟩
      · exact ⟨"", by simp [same]⟩
      · exact ⟨outer ++ "::", split⟩
    · exact last.latest outer long split
  -- Each of the two ends with the other one.
  obtain ⟨between, split⟩ := ends one other
  obtain ⟨between', split'⟩ := ends other one
  have long := congrArg (fun text => text.toList.length) split
  have long' := congrArg (fun text => text.toList.length) split'
  simp only [String.toList_append, List.length_append] at long long'
  have nothing : between.toList = [] := List.eq_nil_of_length_eq_zero (by omega)
  rw [split, String.toList_eq_nil_iff.mp nothing, String.empty_append]

/-- What a walk meets in a class that was opened lies in the class that its scope names. -/
theorem InOpened.classNamed {earlier sites : List Site} {site : Site}
    (inOpened : InOpened earlier sites) (met : site ∈ sites) : site.ClassNamed := by
  induction sites generalizing earlier with
  | nil => cases met
  | cons first rest ih =>
    rcases List.mem_cons.mp met with rfl | later
    · intro context lies name isClass
      exact (inOpened.1 context lies name isClass).2.1
    · exact ih inOpened.2 later

theorem SourceFile.classNamed {source : SourceFile} {site : Site} (met : site ∈ source.sites) :
    site.ClassNamed :=
  (inOpened_sites _ _ [] (.of_none _ _)).classNamed met

namespace SymbolTable

variable (files : List SourceFile) (unit : Path)

theorem ownedByScope_ofFiles :
    ∀ symbol ∈ (ofFiles files unit).symbols, symbol.OwnedByScope := by
  refine ofFiles_induction (motive := fun table => ∀ symbol ∈ table.symbols, symbol.OwnedByScope)
    nofun fun source index _ site met before after addition known => ?_
  obtain ⟨symbols, _⟩ | ⟨new, owned, symbols, _⟩ := addition.entry
  · exact symbols ▸ known
  · rw [symbols]
    intro symbol member
    rcases List.mem_append.mp member with old | added
    · exact known symbol old
    · -- Its context was opened before, so the class of the context is known to be its scope.
      exact List.mem_singleton.mp added ▸ owned (SourceFile.classNamed met)

/-! ### Callables by their spelling -/

/-- The positions of the callables with a spelling, in increasing order. -/
def spelled (table : SymbolTable) (spelling : String) : List Nat :=
  table.symbols.findIdxs fun symbol => symbol.fact.spelling == spelling

theorem Indexed.positions_eq {table : SymbolTable} (indexed : table.Indexed) (spelling : String) :
    table.positions spelling = table.spelled spelling := by
  -- Both lists increase, so it is enough that they have the same members.
  refine (indexed.increasing spelling).eq_of_mem_iff List.pairwise_findIdxs fun position => ?_
  rw [indexed.mem_iff, spelled, List.mem_findIdxs_iff_exists_getElem_pos]
  simp only [List.getElem?_eq_some_iff, beq_iff_eq]
  constructor
  · rintro ⟨symbol, ⟨inTable, rfl⟩, same⟩
    exact ⟨inTable, same⟩
  · rintro ⟨inTable, same⟩
    exact ⟨_, ⟨inTable, rfl⟩, same⟩

/-- A spelling is noted only with a callable that has it. -/
theorem lookup_bySpelling_ne_nil :
    ∀ spelling, (ofFiles files unit).bySpelling.lookup spelling ≠ some [] := by
  refine ofFiles_induction
    (motive := fun table => ∀ spelling, table.bySpelling.lookup spelling ≠ some [])
    nofun fun source index _ site _ before after addition known spelling => ?_
  obtain ⟨_, noted⟩ | ⟨new, _, _, noted⟩ := addition.entry
  · exact noted ▸ known spelling
  · rw [noted, addSymbol, lookup_alterValue]
    split
    · -- Under its own spelling at least the new callable is noted.
      simp
    · exact known spelling

theorem lookup_bySpelling_eq_some_iff {spelling : String} {positions : List Nat} :
    (ofFiles files unit).bySpelling.lookup spelling = some positions ↔
      positions = (ofFiles files unit).spelled spelling ∧ positions ≠ [] := by
  have noted := lookup_bySpelling_ne_nil files unit spelling
  rw [← (indexed_ofFiles files unit).positions_eq, SymbolTable.positions]
  cases found : (ofFiles files unit).bySpelling.lookup spelling with
  | none =>
    rw [Option.getD_none]
    constructor
    · intro isNoted
      cases isNoted
    · rintro ⟨isEmpty, notEmpty⟩
      exact absurd isEmpty notEmpty
  | some others =>
    rw [Option.getD_some, Option.some.injEq]
    constructor
    · rintro rfl
      refine ⟨rfl, ?_⟩
      intro isEmpty
      exact noted (found.trans (congrArg some isEmpty))
    · rintro ⟨same, _⟩
      exact same.symm

/-! ### Lambdas that variables hold -/

theorem nodup_lambdaKeys : (lambdaKeys files).Nodup := by
  refine pairwise_contributions (fun index site =>
    site.lambdas.map fun lambda => NodeKey.mk index lambda.node.address) ?_ ?_ ?_
  · intro source index _ site _
    refine List.pairwise_map.mpr (site.pairwise_lambdas.imp fun different same => ?_)
    exact different (NodeKey.mk.inj same).2
  · intro index one other apart key listed key' listed' same
    obtain ⟨lambda, held, rfl⟩ := List.mem_map.mp listed
    obtain ⟨lambda', held', rfl⟩ := List.mem_map.mp listed'
    exact apart _ _ (Site.holds_of_mem_lambdas held) (Site.holds_of_mem_lambdas held')
      (NodeKey.mk.inj same).2
  · intro index index' different one other key listed key' listed' same
    obtain ⟨lambda, _, rfl⟩ := List.mem_map.mp listed
    obtain ⟨lambda', _, rfl⟩ := List.mem_map.mp listed'
    exact different (NodeKey.mk.inj same).1

/-- The callables of lambdas that variables hold are all in the table, and those of later lambdas
come later. -/
def LambdasInOrder (table : SymbolTable) : Prop :=
  (table.symbols.length :: table.namedLambdas.map Prod.snd).Pairwise (· > ·)

theorem LambdasInOrder.addSymbol {table : SymbolTable} (inOrder : table.LambdasInOrder)
    (symbol : Symbol) : (table.addSymbol symbol).LambdasInOrder := by
  obtain ⟨known, falling⟩ := List.pairwise_cons.mp inOrder
  refine List.pairwise_cons.mpr ⟨fun position member => ?_, falling⟩
  simp only [SymbolTable.addSymbol, List.length_append, List.length_singleton]
  exact Nat.lt_succ_of_lt (known position member)

/-- The lambda that is noted is the callable added just before it. -/
theorem LambdasInOrder.addLambda {table : SymbolTable} (inOrder : table.LambdasInOrder)
    (symbol : Symbol) (key : NodeKey) :
    ((table.addSymbol symbol).addLambda key table.symbols.length).LambdasInOrder := by
  obtain ⟨known, _⟩ := List.pairwise_cons.mp inOrder
  refine List.pairwise_cons.mpr ⟨fun position member => ?_, inOrder⟩
  simp only [SymbolTable.addLambda, SymbolTable.addSymbol, List.length_append,
    List.length_singleton]
  rcases List.mem_cons.mp member with rfl | old
  · exact Nat.lt_succ_self _
  · exact Nat.lt_succ_of_lt (known position old)

theorem LambdasInOrder.addNamedLambda {table : SymbolTable} (inOrder : table.LambdasInOrder)
    (file : FileRef) (scope : BodyScope) (isLocal : Bool) (lambda : NamedLambda) :
    (Cpp.addNamedLambda file scope isLocal table lambda).LambdasInOrder := by
  unfold Cpp.addNamedLambda
  dsimp only
  split
  · exact inOrder.addLambda _ _
  · exact inOrder.addLambda _ _

theorem lambdasInOrder_ofFiles : (ofFiles files unit).LambdasInOrder := by
  refine ofFiles_induction (List.pairwise_singleton _ _) fun source index _ site _ before after
    addition inOrder => ?_
  cases addition with
  | surroundings => exact inOrder
  | callable => exact inOrder.addSymbol _
  | function => exact inOrder.addSymbol _
  | lambda => exact inOrder.addNamedLambda _ _ _ _

/-- The key of each lambda is that of a node, which is a lambda expression. -/
theorem exists_node_of_mem_namedLambdas {entry : NodeKey × Nat}
    (member : entry ∈ (ofFiles files unit).namedLambdas) :
    ∃ source, files[entry.1.file]? = some source ∧ ∃ node : Node,
      node.Inside (.ofTree source.tree) ∧ node.address = entry.1.address ∧
        node.kind = "lambda_expression" := by
  have listed : entry.1 ∈ lambdaKeys files := by
    rw [← List.mem_reverse, ← map_fst_namedLambdas files unit]
    exact List.mem_map_of_mem member
  obtain ⟨⟨source, index⟩, loaded, listed⟩ := List.mem_flatMap.mp listed
  obtain ⟨site, met, listed⟩ := List.mem_flatMap.mp listed
  obtain ⟨lambda, held, same⟩ := List.mem_map.mp listed
  obtain ⟨declarator, _, stored⟩ := Site.exists_declarator_of_mem_lambdas held
  refine ⟨source, ?_, lambda.node, source.inside_root met (Site.holds_of_mem_lambdas held), ?_,
    (namedLambda?_spec stored).2⟩
  · rw [← same]
    exact List.mk_mem_zipIdx_iff_getElem?.mp loaded
  · rw [← same]

/-! ### The whole table -/

/-- The parts of the table of some files fit together, so that a position, a file or a node that it
notes can be followed without a check. -/
structure WellFormed (files : List SourceFile) (table : SymbolTable) : Prop where
  /-- Each spelling that some callable has is noted with all positions of such callables. -/
  noted_iff : ∀ spelling positions, table.bySpelling.lookup spelling = some positions ↔
    positions = table.spelled spelling ∧ positions ≠ []
  id_eq : ∀ symbol ∈ table.symbols, symbol.id = symbol.fact.id
  owned : ∀ symbol ∈ table.symbols, symbol.OwnedByScope
  body_owner : ∀ body ∈ table.bodies, ∃ symbol, table.symbols[body.symbol]? = some symbol ∧
    symbol.fact.isDefinition = true
  body_file : ∀ body ∈ table.bodies, ∃ source, files[body.file]? = some source ∧
    body.node.Inside (.ofTree source.tree)
  /-- No node is noted twice. -/
  lambda_keys : (table.namedLambdas.map Prod.fst).Nodup
  /-- No callable is noted for two nodes. -/
  lambda_symbols : (table.namedLambdas.map Prod.snd).Nodup
  lambda_kind : ∀ entry ∈ table.namedLambdas, ∃ symbol, table.symbols[entry.2]? = some symbol ∧
    symbol.fact.kind = .lambda
  lambda_node : ∀ entry ∈ table.namedLambdas, ∃ source, files[entry.1.file]? = some source ∧
    ∃ node : Node, node.Inside (.ofTree source.tree) ∧ node.address = entry.1.address ∧
      node.kind = "lambda_expression"

/-- The table of a unit is well formed, whatever its files are and whatever trees they have. -/
theorem wellFormed_ofFiles (files : List SourceFile) (unit : Path) :
    (ofFiles files unit).WellFormed files := by
  have coherent := coherent_ofFiles files unit
  constructor
  · exact fun spelling positions => lookup_bySpelling_eq_some_iff files unit
  · exact coherent.id_eq
  · exact ownedByScope_ofFiles files unit
  · exact coherent.defined
  · intro body member
    obtain ⟨source, loaded, site, met, recorded⟩ := exists_site_of_mem_bodies member
    exact ⟨source, List.mk_mem_zipIdx_iff_getElem?.mp loaded,
      source.inside_root met (Site.holds_of_mem_bodies recorded)⟩
  · -- The lambdas of the table are those of the trees, and no two of these are at one place.
    rw [map_fst_namedLambdas]
    exact List.nodup_reverse.mpr (nodup_lambdaKeys files)
  · exact (List.pairwise_cons.mp (lambdasInOrder_ofFiles files unit)).2.imp fun later => later.ne'
  · intro entry member
    obtain ⟨symbol, found, isLambda, _⟩ := (lambdasStored_ofFiles files unit).stored entry member
    exact ⟨symbol, found, isLambda⟩
  · exact fun entry member => exists_node_of_mem_namedLambdas files unit member

/-! ### Constructors by their class -/

/-- The callable at a position is a constructor of a class and admits so many arguments. -/
def Constructs (table : SymbolTable) (className : String) (arguments position : Nat) : Prop :=
  ∃ symbol, table.symbols[position]? = some symbol ∧ symbol.fact.kind = .constructor ∧
    symbol.owner? = some className ∧ symbol.accepts arguments = true

/-- A constructor is spelled as the last component of its class. -/
theorem named_constructor_iff {className : String} {arguments position : Nat} :
    (ofFiles files unit).Named (lastComponent className) (fun symbol =>
        symbol.fact.kind == .constructor && symbol.owner? == some className &&
          symbol.accepts arguments) position ↔
      (ofFiles files unit).Constructs className arguments position := by
  constructor
  · rintro ⟨symbol, found, _, accepted⟩
    simp only [Bool.and_eq_true, beq_iff_eq] at accepted
    exact ⟨symbol, found, accepted.1.1, accepted.1.2, accepted.2⟩
  · -- Where the class is right, the spelling is right too.
    rintro ⟨symbol, found, isConstructor, owned, accepts⟩
    have known := ownedByScope_ofFiles files unit symbol (List.mem_of_getElem? found)
    have spelled := (known.constructor_named isConstructor className owned).unique
      (isLastComponent_lastComponent className)
    exact ⟨symbol, found, spelled, by simp [isConstructor, owned, accepts]⟩

/-- The look-up of a constructor finds the first one that the class has for the arguments, though it
asks only for callables with a certain spelling. -/
theorem constructor?_eq_some_iff {className : String} {arguments position : Nat} :
    (ofFiles files unit).constructor? className arguments = some position ↔
      IsLeast {position | (ofFiles files unit).Constructs className arguments position}
        position := by
  rw [constructor?, findNamed?_eq_some_iff (indexed_ofFiles files unit)]
  simp only [named_constructor_iff]

end SymbolTable

end CallGraph.Cpp
