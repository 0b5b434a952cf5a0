import CallGraph.Analyzer

/-!
# Index

The index is the call graph as far as it is known: one record per callable, in the order of
discovery, with the positions of the callables it calls in the order of their calls. Ingesting a
file merges the facts of its unit. A definition never gives way to a declaration, and a record with
callees is final.
-/
namespace CallGraph

structure GraphNode where
  /-- The identity under which the node is found. -/
  key : CallableId
  callable : Callable
  /-- Where the callees stand among the nodes. -/
  callees : List Nat
deriving DecidableEq, Repr, Inhabited

namespace GraphNode

def withRecord (node : GraphNode) (callable : Callable) : GraphNode :=
  { node with callable := callable }

def withCallee (node : GraphNode) (target : Nat) : GraphNode :=
  { node with callees := node.callees ++ [target] }

section Updates

variable (node : GraphNode) (callable : Callable) (target : Nat)

@[simp] theorem withRecord_key : (node.withRecord callable).key = node.key := rfl

@[simp] theorem withRecord_callable : (node.withRecord callable).callable = callable := rfl

@[simp] theorem withRecord_callees : (node.withRecord callable).callees = node.callees := rfl

@[simp] theorem withCallee_key : (node.withCallee target).key = node.key := rfl

@[simp] theorem withCallee_callable : (node.withCallee target).callable = node.callable := rfl

@[simp] theorem withCallee_callees :
    (node.withCallee target).callees = node.callees ++ [target] := rfl

end Updates

end GraphNode

/-- The call graph as far as it is known. -/
structure Index where
  /-- What the labels of participants are relative to. -/
  root : DisplayRoot
  nodes : List GraphNode
  /-- The canonical paths of the files whose facts have been merged. -/
  ingested : List Path
deriving DecidableEq, Repr, Inhabited

structure IngestReport where
  /-- Callables that were new, or became definitions, in the order of their facts. -/
  updated : List CallableId
  edgesAdded : Nat
  /-- How many callables were left out because they belong to system headers. -/
  filtered : Nat
  warnings : List Diagnostic
deriving DecidableEq, Repr, Inhabited

/-- The node found under a key, and its position. -/
def locate? (nodes : List GraphNode) (id : CallableId) : Option (GraphNode × Nat) :=
  nodes.zipIdx.find? fun entry => entry.1.key == id

/-- The record at a position. -/
def callableAt? (nodes : List GraphNode) (position : Nat) : Option Callable :=
  nodes[position]?.map GraphNode.callable

/-- How many callees the nodes have together. -/
def edgeCount (nodes : List GraphNode) : Nat :=
  nodes.foldr (fun node count => node.callees.length + count) 0

/-- The state of merging the facts of one unit. -/
structure Merge where
  nodes : List GraphNode
  /-- The positions of the callables that this unit defines and whose calls it may add. -/
  opened : List Nat
  updated : List CallableId
  edgesAdded : Nat
  filtered : Nat
deriving DecidableEq, Repr, Inhabited

namespace Merge

def start (nodes : List GraphNode) : Merge := ⟨nodes, [], [], 0, 0⟩

def discover (merge : Merge) (callable : Callable) : Merge :=
  { merge with
    nodes := merge.nodes ++ [⟨callable.id, callable, []⟩]
    updated := merge.updated ++ [callable.id]
    opened := if callable.isDefinition then merge.nodes.length :: merge.opened
      else merge.opened }

def redefine (merge : Merge) (node : GraphNode) (position : Nat) (callable : Callable) : Merge :=
  { merge with
    nodes := merge.nodes.modify position (·.withRecord callable)
    updated := if node.callable.isDefinition then merge.updated
      else merge.updated ++ [callable.id]
    opened := position :: merge.opened }

def link (merge : Merge) (position target : Nat) : Merge :=
  { merge with
    nodes := merge.nodes.modify position (·.withCallee target)
    edgesAdded := merge.edgesAdded + 1 }

def addCallable (merge : Merge) (callable : Callable) : Merge :=
  match locate? merge.nodes callable.id with
  | none => merge.discover callable
  | some (node, position) =>
    -- A record with callees is final, and no declaration replaces a record.
    if !callable.isDefinition || node.callees ≠ [] then merge
    else merge.redefine node position callable

/-- Merges a call. It counts only if the caller is open and the callee known. -/
def addCall (merge : Merge) (caller callee : CallableId) : Merge :=
  match locate? merge.nodes caller, locate? merge.nodes callee with
  | some (node, position), some (_, target) =>
    if position ∉ merge.opened || target ∈ node.callees then merge
    else merge.link position target
  | _, _ => merge

/-- Merges a fact; callables in the excluded directories are only counted. -/
def addFact (root : DisplayRoot) (excluded : List Path) (merge : Merge) : Fact → Merge
  | .callable symbol =>
    if excluded.any symbol.sourceFile.startsWith then { merge with filtered := merge.filtered + 1 }
    else merge.addCallable (symbol.toCallable root)
  | .call caller callee => merge.addCall caller callee

end Merge

/-- `paths` with a path added at the end, unless it is there. -/
def addPath (paths : List Path) (path : Path) : List Path :=
  if paths.any path.same then paths else paths ++ [path]

namespace Index

def empty (root : DisplayRoot) : Index := ⟨root, [], []⟩

/-- The known callables, in the order of discovery. -/
def ids (index : Index) : List CallableId := index.nodes.map GraphNode.key

/-- The records of all known callables, in the order of discovery. -/
def callables (index : Index) : List Callable := index.nodes.map GraphNode.callable

def callCount (index : Index) : Nat := edgeCount index.nodes

def node? (index : Index) (id : CallableId) : Option GraphNode :=
  (locate? index.nodes id).map Prod.fst

def find? (index : Index) (id : CallableId) : Option Callable :=
  (index.node? id).map GraphNode.callable

/-- The record of a callable; an unknown one is an error. -/
def lookup (index : Index) (id : CallableId) : Except Error Callable :=
  match index.find? id with
  | some callable => .ok callable
  | none => .error (.unknownSymbol id)

def isDefined (index : Index) (id : CallableId) : Bool :=
  (index.find? id).any Callable.isDefinition

/-- The records of the callables that a callable calls, in the order of discovery. -/
def calleesOf (index : Index) (id : CallableId) : List Callable :=
  match index.node? id with
  | some node => node.callees.filterMap (callableAt? index.nodes)
  | none => []

/-- The callables observed in a file. -/
def declaredIn (index : Index) (files : FileSystem) (file : Path) : List Callable :=
  let wanted := files.canonical file
  index.callables.filter fun callable => callable.sourceFile.same wanted

def isIngested (index : Index) (files : FileSystem) (file : Path) : Bool :=
  index.ingested.any (files.canonical file).same

def mergeFacts (index : Index) (excluded : List Path) (facts : List Fact) : Merge :=
  facts.foldl (Merge.addFact index.root excluded) (.start index.nodes)

/-- Analyzes a file and merges its facts, except for the callables in the excluded directories.
Without a unit to merge the index stays as it is. -/
def ingestExcluding (workspace : Workspace) (index : Index) (excluded : List Path) (file : Path)
    (arguments : List String) : Except Error (Index × IngestReport) :=
  match workspace.files.canonical? file with
  | none => .error (.sourceNotFound file)
  | some path =>
    match workspace.analyze path arguments with
    | .error error => .error error
    | .ok unit =>
      let merge := index.mergeFacts excluded unit.facts
      let merged : Index := ⟨index.root, merge.nodes, addPath index.ingested path⟩
      .ok (merged, ⟨merge.updated, merge.edgesAdded, merge.filtered, unit.warnings⟩)

/-- Ingests a file, with the callables of system headers or without them. -/
def ingest (tools : Toolchain) (index : Index) (file : Path) (arguments : List String)
    (keepSystem : Bool) : Except Error (Index × IngestReport) :=
  index.ingestExcluding tools.toWorkspace (tools.excludedDirectories arguments keepSystem) file
    arguments

theorem mem_nodes_of_node? {index : Index} {id : CallableId} {node : GraphNode}
    (found : index.node? id = some node) : node ∈ index.nodes ∧ node.key = id := by
  simp only [node?, locate?, Option.map_eq_some_iff] at found
  obtain ⟨entry, atEntry, rfl⟩ := found
  have sameKey := List.find?_some atEntry
  exact ⟨List.fst_mem_of_mem_zipIdx (List.mem_of_find?_eq_some atEntry), by simpa using sameKey⟩

theorem mem_ids_of_find? {index : Index} {id : CallableId} {callable : Callable}
    (found : index.find? id = some callable) : id ∈ index.ids := by
  simp only [find?, Option.map_eq_some_iff] at found
  obtain ⟨node, atNode, rfl⟩ := found
  obtain ⟨member, rfl⟩ := mem_nodes_of_node? atNode
  exact List.mem_map_of_mem member

theorem mem_callables_of_mem_calleesOf {index : Index} {id : CallableId} {callee : Callable}
    (called : callee ∈ index.calleesOf id) : callee ∈ index.callables := by
  unfold calleesOf at called
  split at called
  · obtain ⟨position, _, found⟩ := List.mem_filterMap.mp called
    obtain ⟨node, atNode, rfl⟩ := Option.map_eq_some_iff.mp found
    exact List.mem_map_of_mem (List.mem_of_getElem? atNode)
  · simp at called

end Index

end CallGraph
