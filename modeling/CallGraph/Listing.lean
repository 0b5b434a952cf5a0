import CallGraph.DefinitionSearch
import CallGraph.Fresh

/-!
# Call tree listings

The call tree below an entry point as indented text. Files are ingested until the entry point is
defined; while the tree is written, the definition of each callable that is only declared is
searched for before its callees are listed, so the graph grows under the traversal. A callable on
its own path is listed, but not followed.
-/
namespace CallGraph

/-- A line of a listing: a callable, and the callables above it, outermost first. -/
structure ListingLine where
  trail : List CallableId
  id : CallableId
deriving DecidableEq, Repr, Inhabited

/-- The text of a line, indented by two blanks for each callable above. -/
def ListingLine.render (line : ListingLine) : String :=
  String.ofList (List.replicate (2 * line.trail.length) ' ') ++ line.id.text ++ "\n"

/-- An upper bound on how many lines a line and the lines below it can make up, if all callables are
in a pool and none has more callees than the width. -/
def ListingLine.weight (pool : List CallableId) (width : Nat) (line : ListingLine) : Nat :=
  Nat.pow (width + 1) (fresh pool line.trail).length

/-- An upper bound on how many lines the lines on an agenda can still make up. -/
def agendaWeight (pool : List CallableId) (width : Nat) (agenda : List ListingLine) : Nat :=
  agenda.foldr (fun line weight => line.weight pool width + weight) 0

/-- The lines for the callees of a callable that has just been listed. -/
def ListingLine.children (index : Index) (line : ListingLine) : List ListingLine :=
  (index.calleesOf line.id).map fun callee => ⟨line.trail ++ [line.id], callee.id⟩

section Weight

variable (pool : List CallableId) (width : Nat)

theorem agendaWeight_cons (line : ListingLine) (rest : List ListingLine) :
    agendaWeight pool width (line :: rest) =
      line.weight pool width + agendaWeight pool width rest := rfl

theorem agendaWeight_append (first later : List ListingLine) :
    agendaWeight pool width (first ++ later) =
      agendaWeight pool width first + agendaWeight pool width later := by
  induction first with
  | nil => exact (Nat.zero_add _).symm
  | cons line rest ih =>
    rw [List.cons_append, agendaWeight_cons, agendaWeight_cons, ih, Nat.add_assoc]

theorem ListingLine.weight_pos (line : ListingLine) : 0 < line.weight pool width :=
  Nat.pow_pos (Nat.succ_pos _)

/-- One step down in the exponent outweighs as many terms as the bound allows. -/
theorem mul_pow_lt_pow {count bound low high : Nat} (few : count ≤ bound) (step : low < high) :
    count * Nat.pow (bound + 1) low < Nat.pow (bound + 1) high := by
  have positive : 0 < Nat.pow (bound + 1) low := Nat.pow_pos (Nat.succ_pos bound)
  calc
    count * Nat.pow (bound + 1) low < (bound + 1) * Nat.pow (bound + 1) low :=
      Nat.mul_lt_mul_of_pos_right (Nat.lt_succ_of_le few) positive
    _ = Nat.pow (bound + 1) (low + 1) := Nat.mul_comm _ _
    _ ≤ Nat.pow (bound + 1) high := Nat.pow_le_pow_right (Nat.succ_pos bound) step

/-- The lines below a line all weigh the same. -/
theorem ListingLine.agendaWeight_children (index : Index) (line : ListingLine) :
    agendaWeight pool width (line.children index) = (index.calleesOf line.id).length *
      Nat.pow (width + 1) (fresh pool (line.trail ++ [line.id])).length := by
  unfold children
  induction index.calleesOf line.id with
  | nil => exact (Nat.zero_mul _).symm
  | cons callee callees ih =>
    rw [List.map_cons, agendaWeight_cons, ih, List.length_cons, Nat.succ_mul, Nat.add_comm, weight]

variable {pool width}

/-- All lines below a line that has just been listed weigh less than the line did. -/
theorem ListingLine.agendaWeight_children_lt {index : Index} {line : ListingLine}
    (few : (index.calleesOf line.id).length ≤ width) (known : line.id ∈ pool)
    (new : line.id ∉ line.trail) :
    agendaWeight pool width (line.children index) < line.weight pool width := by
  rw [agendaWeight_children, weight]
  exact mul_pow_lt_pow few
    (length_fresh_lt known new (fun _ member => List.mem_append_left _ member) (by simp))

end Weight

theorem length_callees_le_edgeCount {nodes : List GraphNode} {node : GraphNode}
    (member : node ∈ nodes) : node.callees.length ≤ edgeCount nodes := by
  unfold edgeCount
  induction nodes with
  | nil => simp at member
  | cons first rest ih =>
    rw [List.foldr_cons]
    rcases List.mem_cons.mp member with rfl | later
    · exact Nat.le_add_right _ _
    · exact Nat.le_trans (ih later) (Nat.le_add_left _ _)

theorem Index.length_calleesOf_le (index : Index) (id : CallableId) :
    (index.calleesOf id).length ≤ index.callCount := by
  unfold calleesOf
  split
  · rename_i node found
    refine Nat.le_trans (List.length_filterMap_le _ _) ?_
    exact length_callees_le_edgeCount (mem_nodes_of_node? found).1
  · simp

namespace DefinitionSearch

/-- Makes a callable a definition if that is possible. -/
def define (search : DefinitionSearch) (index : Index) (callable : Callable) :
    Except Error Index :=
  if callable.isDefinition then .ok index
  else (search.resolve index callable.id).map Prod.fst

theorem define_progress {search : DefinitionSearch} {index after : Index} {callable : Callable}
    (success : search.define index callable = .ok after) :
    after = index ∨ search.catalog.pending search.tools.files after <
      search.catalog.pending search.tools.files index := by
  unfold define at success
  split at success
  · simp only [Except.ok.injEq] at success
    exact .inl success.symm
  · cases found : search.resolve index callable.id with
    | error error => simp [found, Except.map] at success
    | ok result =>
      obtain ⟨grown, resolution⟩ := result
      simp only [found, Except.map, Except.ok.injEq] at success
      subst success
      exact resolve_progress found

/--
Writes the lines on an agenda and all lines below them, in order, together with the index as it is
in the end.
-/
def list (search : DefinitionSearch) (index : Index) (agenda : List ListingLine) :
    Except Error (Index × List ListingLine) :=
  match agenda with
  | [] => .ok (index, [])
  | line :: rest =>
    if _cut : line.id ∈ line.trail then
      (search.list index rest).map fun (after, lines) => (after, line :: lines)
    else
      match _known : index.find? line.id with
      | none => .error (.unknownSymbol line.id)
      | some callable =>
        match _defined : search.define index callable with
        | .error error => .error error
        | .ok grown =>
          (search.list grown (line.children grown ++ rest)).map fun (after, lines) =>
            (after, line :: lines)
termination_by
  (search.catalog.pending search.tools.files index, agendaWeight index.ids index.callCount agenda)
decreasing_by
  · apply Prod.Lex.right
    have positive := line.weight_pos index.ids index.callCount
    rw [agendaWeight_cons]
    omega
  · rcases define_progress _defined with same | less
    · rw [same]
      apply Prod.Lex.right
      have known := Index.mem_ids_of_find? _known
      have few := index.length_calleesOf_le line.id
      have lighter := ListingLine.agendaWeight_children_lt few known _cut
      rw [agendaWeight_append, agendaWeight_cons]
      omega
    · exact Prod.Lex.left _ _ less

/-- Ingests files until a callable is defined. A file that cannot be ingested is an error. -/
def ingestUntilDefined (search : DefinitionSearch) (id : CallableId) :
    List Path → Index → Except Error Index
  | [], index => .ok index
  | file :: rest, index =>
    if index.isDefined id then .ok index
    else
      match search.ingest index file with
      | .error error => .error error
      | .ok (after, _) => search.ingestUntilDefined id rest after

end DefinitionSearch

structure ListingRequest where
  /-- The callable at the top. -/
  entry : CallableId
  /-- A source file or a compilation database. -/
  source : Path
  keepSystem : Bool
  /-- Compiler arguments in addition to those of the catalog. -/
  extraArguments : List String
  displayRoot? : Option Path

namespace ListingRequest

/-- The listing in a given catalog: the index in the end, and the lines. -/
def linesIn (request : ListingRequest) (tools : Toolchain) (catalog : Catalog) :
    Except Failure (Index × List ListingLine) :=
  let root := match request.displayRoot? with
    | some path => ⟨some path⟩
    | none => catalog.displayRoot
  let search : DefinitionSearch := ⟨tools, catalog, request.keepSystem⟩
  match search.ingestUntilDefined request.entry catalog.paths (.empty root) with
  | .error error => .error (.ofError error)
  | .ok index =>
    match index.find? request.entry with
    | none => .error (.badRequest
        s!"Entry point {request.entry.text} not found in {request.source.text}")
    | some callable =>
      if !callable.isDefinition then
        .error (.badRequest s!"No definition of {request.entry.text} in {request.source.text}")
      else (search.list index [⟨[], request.entry⟩]).mapError Failure.ofError

def lines (request : ListingRequest) (tools : Toolchain) :
    Except Failure (Index × List ListingLine) :=
  match Catalog.ofPath tools.files request.source request.extraArguments with
  | .error error => .error (.graph [s!"Failed to open {request.source.text}"] error)
  | .ok catalog => request.linesIn tools catalog

def text (request : ListingRequest) (tools : Toolchain) : Except Failure String :=
  (request.lines tools).map fun (_, lines) => String.join (lines.map ListingLine.render)

end ListingRequest

end CallGraph
