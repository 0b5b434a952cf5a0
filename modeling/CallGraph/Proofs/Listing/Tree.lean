import CallGraph.Listing
import CallGraph.Proofs.Diagram.Drawing

/-!
# Listings and diagrams

Main result: `listing_matches_diagram`. Where everything below an entry point is defined already, a
listing leaves the graph as it is, and its lines are the calls of the diagram in which everything
is included: the same callables in the same order, each as deep as activations are open.

The listing keeps an agenda of lines that each carry their own trail; the diagram is a recursion
over calls that brackets what is below them. Both are read as the walks from the entry point that
pass no callable twice (`ListingLine.below`), and neither is compared to the other directly.
-/
namespace CallGraph

open Diagram

variable {index : Index}

namespace ListingLine

/-- The line for the end of a walk that goes on where a path has led. -/
def ofWalk (path walk : List CallableId) : Option ListingLine :=
  walk.getLast?.map fun id => ⟨path ++ walk.dropLast, id⟩

/-- A line and those below it: one for each walk that goes on from its callable. -/
def below (index : Index) (line : ListingLine) : List ListingLine :=
  (walksFrom index line.trail line.id).filterMap (ofWalk line.trail)

/-- How many callables stand above a line, and the callable on it. -/
def entry (line : ListingLine) : Nat × CallableId := (line.trail.length, line.id)

theorem ofWalk_singleton (path : List CallableId) (id : CallableId) :
    ofWalk path [id] = some ⟨path, id⟩ := by
  simp [ofWalk]

/-- What a walk has passed first is as good as a part of the path. -/
theorem ofWalk_cons (path : List CallableId) (first : CallableId) {rest : List CallableId}
    (longer : rest ≠ []) : ofWalk path (first :: rest) = ofWalk (path ++ [first]) rest := by
  simp [ofWalk, List.getLast?_cons_of_ne_nil longer, List.dropLast_cons_of_ne_nil longer]

theorem below_eq (line : ListingLine) :
    line.below index = line :: if line.id ∈ line.trail then []
      else (line.children index).flatMap (ListingLine.below index) := by
  obtain ⟨path, id⟩ := line
  rw [ListingLine.below, walksFrom_eq, List.filterMap_cons_some (ofWalk_singleton path id)]
  congr 1
  by_cases onPath : id ∈ path
  · simp [onPath]
  · rw [if_neg onPath, if_neg onPath, List.filterMap_map, ListingLine.children, List.flatMap_map,
      Index.calleeIds, List.flatMap_map, List.filterMap_flatMap]
    apply List.flatMap_congr
    intro callee _
    -- A walk that goes on has an end of its own, so its line is that of the rest of it.
    apply List.filterMap_congr
    intro walk member
    apply ofWalk_cons
    rintro rfl
    exact nil_not_mem_walksFrom member

end ListingLine

/-! ### The listing -/

/-- Everything that can be reached from a callable has been defined. -/
def Index.Complete (index : Index) (entry : CallableId) : Prop :=
  ∀ id, index.Reaches entry id → index.isDefined id

theorem Index.Complete.of_call {caller callee : CallableId} (complete : index.Complete caller)
    (called : index.HasCall caller callee) : index.Complete callee :=
  fun id reaches => complete id (.head called reaches)

theorem DefinitionSearch.define_of_isDefined (search : DefinitionSearch) {id : CallableId}
    {callable : Callable} (found : index.find? id = some callable)
    (defined : index.isDefined id) : search.define index callable = .ok index := by
  have final : callable.isDefinition = true := by simpa [Index.isDefined, found] using defined
  rw [define, if_pos final]

/-- With nothing left to search for, an agenda is worked off line by line. -/
theorem DefinitionSearch.list_of_complete (search : DefinitionSearch)
    {agenda : List ListingLine} (complete : ∀ line ∈ agenda, index.Complete line.id) :
    search.list index agenda = .ok (index, agenda.flatMap (ListingLine.below index)) := by
  -- Over the calls of the traversal itself; a search for what is defined leaves the graph alone.
  fun_induction DefinitionSearch.list search index agenda with
  | case1 => rfl
  | case2 index line rest cut ih =>
    have later := ih fun other member => complete other (List.mem_cons_of_mem _ member)
    rw [later, List.flatMap_cons, ListingLine.below_eq, if_pos cut]
    rfl
  | case3 index line rest new unknown =>
    have defined := complete line List.mem_cons_self line.id .refl
    simp [Index.isDefined, unknown] at defined
  | case4 index line rest new callable known error failed =>
    have defined := complete line List.mem_cons_self line.id .refl
    rw [define_of_isDefined search known defined] at failed
    cases failed
  | case5 index line rest new callable known grown success ih =>
    have here := complete line List.mem_cons_self
    rw [define_of_isDefined search known (here line.id .refl)] at success
    obtain rfl := Except.ok.inj success
    have below (child) (member : child ∈ line.children index) : index.Complete child.id := by
      obtain ⟨callee, called, rfl⟩ := List.mem_map.mp member
      exact Index.Complete.of_call here (List.mem_map_of_mem called)
    have later := ih fun other member => (List.mem_append.mp member).elim (below other)
      fun member => complete other (List.mem_cons_of_mem _ member)
    rw [later, List.flatMap_append, List.flatMap_cons, ListingLine.below_eq line, if_neg new]
    rfl

/-! ### The diagram -/

/-- The calls among some lines that are read with a number of activations open: how many are open
at the call, and who is called. -/
def Diagram.callDepths : Nat → List Line → List (Nat × CallableId)
  | _, [] => []
  | opened, .call _ callee :: rest => (opened, callee.id) :: callDepths opened rest
  | opened, .activate _ :: rest => callDepths (opened + 1) rest
  | opened, .deactivate _ :: rest => callDepths (opened - 1) rest

theorem Diagram.callDepths_bracket (opened : Nat) (sender? : Option String) (callee : Callable)
    (inner rest : List Line) :
    callDepths opened (bracket sender? callee inner ++ rest) =
      (opened, callee.id) ::
        callDepths (opened + 1) (inner ++ .deactivate callee.participant :: rest) := by
  simp [bracket, callDepths]

theorem Diagram.callDepths_flatMap {α : Type} {xs : List α} {opened : Nat}
    {draw : α → List Line} {depths : α → List (Nat × CallableId)}
    (each : ∀ x ∈ xs, ∀ rest, callDepths opened (draw x ++ rest) =
      depths x ++ callDepths opened rest) (rest : List Line) :
    callDepths opened (xs.flatMap draw ++ rest) =
      xs.flatMap depths ++ callDepths opened rest := by
  induction xs with
  | nil => rfl
  | cons x later ih =>
    have others := ih fun other member => each other (List.mem_cons_of_mem x member)
    rw [List.flatMap_cons, List.append_assoc, each x List.mem_cons_self, others,
      List.flatMap_cons, List.append_assoc]

/-- Drawing a call opens one activation for each callable above, if all of them are drawn. -/
theorem Diagram.callDepths_drawCall (wellFormed : WellFormed index.nodes)
    (path : List CallableId) (sender? : Option String) (callable : Callable)
    (known : callable.id ∈ index.ids) (rest : List Line) :
    callDepths path.length (drawCall index index.ids path sender? callable ++ rest) =
      (ListingLine.below index ⟨path, callable.id⟩).map ListingLine.entry ++
        callDepths path.length rest := by
  obtain ⟨id, same⟩ : ∃ id, callable.id = id := ⟨_, rfl⟩
  induction path, id using path_induction index generalizing sender? callable rest with
  | step path id ih =>
    subst same
    rw [drawCall, if_pos known, callDepths_bracket, ListingLine.below_eq, List.map_cons,
      List.cons_append]
    congr 1
    by_cases onPath : callable.id ∈ path
    · simp [drawBelow, onPath, callDepths]
    · have callees (callee) (called : callee ∈ index.calleesOf callable.id) (rest : List Line) :=
        have call : index.HasCall callable.id callee.id := List.mem_map_of_mem called
        ih onPath callee.id call (some callable.participant) callee
          (Index.callee_known wellFormed call) rest rfl
      rw [List.length_append, List.length_singleton] at callees
      rw [drawBelow, if_neg onPath, if_neg onPath, below_eq, callDepths_flatMap callees,
        ListingLine.children, List.flatMap_map, List.map_flatMap]
      simp [callDepths]

/-- The lines of a listing below a callable with nothing left to define, and the calls of the
diagram in which every known callable is included, are the same, at the same depths. The listing
leaves the graph as it is. -/
theorem listing_matches_diagram (reachable : index.Reachable) {entry : CallableId}
    (known : entry ∈ index.ids) (complete : ∀ id, index.Reaches entry id → index.isDefined id)
    (search : DefinitionSearch) :
    ∃ lines, search.list index [⟨[], entry⟩] = .ok (index, lines) ∧
      lines.map (fun line => (line.trail.length, line.id)) =
        callDepths 0 (Diagram.lines index entry index.ids) := by
  have line_complete : ∀ line ∈ [(⟨[], entry⟩ : ListingLine)], index.Complete line.id :=
    List.forall_mem_singleton.mpr complete
  refine ⟨_, search.list_of_complete line_complete, ?_⟩
  obtain ⟨callable, found⟩ := Option.ne_none_iff_exists'.mp fun missing =>
    Index.find?_eq_none_iff.mp missing known
  obtain ⟨_, rfl⟩ := (Index.find?_eq_some_iff reachable.wellFormed).mp found
  have drawn := callDepths_drawCall reachable.wellFormed [] none callable known []
  rw [List.append_nil, ← lines_eq_drawCall found rfl] at drawn
  rw [List.flatMap_singleton]
  exact (drawn.trans (List.append_nil _)).symm

section Example

private def recursiveFact (spelling : String) : Fact :=
  .callable ⟨.function, [], spelling, spelling ++ "()", "void", true, ⟨"/f.cpp"⟩, ⟨"/f.cpp"⟩⟩

/-- The file where `f()` calls `g()` and `h()`, and `g()` calls `h()` and `f()`. -/
private def recursiveRequest : IngestRequest where
  workspace :=
    ⟨⟨.directory [("f.cpp", .file [])], [], .plain⟩, fun path _ => .ok ⟨path,
      [recursiveFact "f", recursiveFact "g", recursiveFact "h", .call ⟨"f()"⟩ ⟨"g()"⟩,
        .call ⟨"f()"⟩ ⟨"h()"⟩, .call ⟨"g()"⟩ ⟨"h()"⟩, .call ⟨"g()"⟩ ⟨"f()"⟩], []⟩⟩
  excluded := []
  file := ⟨"/f.cpp"⟩
  arguments := []

private def recursiveSearch : DefinitionSearch :=
  ⟨recursiveRequest.workspace, ⟨⟨"/f.cpp"⟩, [(⟨"/f.cpp"⟩, [])]⟩, false⟩

/-- The call back to `f()` is listed and drawn two levels down, and `h()` on both ways to it. -/
theorem recursion_listed_as_drawn :
    (Index.run ⟨none⟩ [recursiveRequest]).Reachable ∧
      ∃ lines, recursiveSearch.list (Index.run ⟨none⟩ [recursiveRequest]) [⟨[], ⟨"f()"⟩⟩] =
          .ok (Index.run ⟨none⟩ [recursiveRequest], lines) ∧
        lines.map ListingLine.entry =
          [(0, ⟨"f()"⟩), (1, ⟨"g()"⟩), (2, ⟨"h()"⟩), (2, ⟨"f()"⟩), (1, ⟨"h()"⟩)] := by
  have reachable : (Index.run ⟨none⟩ [recursiveRequest]).Reachable := ⟨_, _, rfl⟩
  have known : (⟨"f()"⟩ : CallableId) ∈ (Index.run ⟨none⟩ [recursiveRequest]).ids := by decide
  have defined : ∀ id ∈ (Index.run ⟨none⟩ [recursiveRequest]).ids,
      (Index.run ⟨none⟩ [recursiveRequest]).isDefined id := by decide
  obtain ⟨lines, listed, same⟩ := listing_matches_diagram reachable known
    (fun id reaches => defined id (Index.known_of_reaches reachable.wellFormed known reaches))
    recursiveSearch
  refine ⟨reachable, lines, listed, same.trans ?_⟩
  decide +kernel

end Example

end CallGraph
