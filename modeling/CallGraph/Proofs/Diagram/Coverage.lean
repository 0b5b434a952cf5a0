import CallGraph.Proofs.Diagram.Drawing

/-!
# What a diagram draws

Main result: `callLines_correspond_to_walks`. The calls of a diagram are the walks from its root
to the included callables that pass no callable twice. Cutting a walk where it comes back to itself
loses no callable, because a detour can be left out of a walk.
-/
namespace CallGraph.Diagram

variable {index : Index} {root : CallableId} {included : List CallableId}

/-- The line is a call of the callable at the end of a walk, and its text says so. -/
def ShowsEnd (index : Index) (walk : List CallableId) (line : Line) : Prop :=
  ∃ sender? last callee, line = .call sender? callee ∧ walk.getLast? = some last ∧
    index.find? last = some callee ∧
    ∃ sender, line.render =
      sender ++ " -> \"" ++ callee.participant ++ "\": " ++ callee.qualifiedName

/-- Some line is a call of the callable. -/
def Draws (lines : List Line) (id : CallableId) : Prop :=
  ∃ sender? callee, Line.call sender? callee ∈ lines ∧ callee.id = id

theorem mem_callLines_iff {lines : List Line} {line : Line} :
    line ∈ callLines lines ↔ line ∈ lines ∧ ∃ sender? callee, line = .call sender? callee := by
  rw [callLines, List.mem_filter]
  cases line <;> simp [Line.isCall]

theorem exists_render_call (sender? : Option String) (callee : Callable) :
    ∃ sender, (Line.call sender? callee).render =
      sender ++ " -> \"" ++ callee.participant ++ "\": " ++ callee.qualifiedName :=
  ⟨_, rfl⟩

theorem renderBody_eq_empty_iff {lines : List Line} : renderBody lines = "" ↔ lines = [] := by
  cases lines <;> simp [renderBody]

theorem DrawnWalk.reaches {walk : List CallableId} {last : CallableId}
    (drawn : DrawnWalk index root included walk) (ends : walk.getLast? = some last) :
    index.Reaches root last :=
  reaches_of_walk drawn.starts drawn.calls ends

theorem exists_drawnWalk_of_reaches {id : CallableId} (member : id ∈ included)
    (reaches : index.Reaches root id) :
    ∃ walk, DrawnWalk index root included walk ∧ walk.getLast? = some id := by
  obtain ⟨walk, starts, calls, distinct, ends⟩ := exists_walk_of_reaches reaches
  exact ⟨walk, ⟨starts, calls, distinct.sublist walk.dropLast_sublist, id, member, ends⟩, ends⟩

theorem draws_iff (wellFormed : WellFormed index.nodes) (known : root ∈ index.ids)
    (id : CallableId) :
    Draws (lines index root included) id ↔ id ∈ included ∧ index.Reaches root id := by
  obtain ⟨walks, member, _, related⟩ := exists_drawnWalks wellFormed root included
  obtain ⟨lineOf, walkOf⟩ := exists_of_forall₂ related
  constructor
  · -- A call line belongs to a walk, and the walk leads there.
    rintro ⟨sender?, callee, drawn, rfl⟩
    obtain ⟨walk, there, call⟩ := walkOf _ (mem_callLines_iff.mpr ⟨drawn, sender?, callee, rfl⟩)
    obtain ⟨last, record, ends, inside, found, same⟩ := callOf_eq_some_iff.mp call
    obtain ⟨_, rfl⟩ := Line.call.inj same
    obtain ⟨_, rfl⟩ := (Index.find?_eq_some_iff wellFormed).mp found
    exact ⟨inside, ((member walk).mp there).2.reaches ends⟩
  · -- A chain of calls without detours is a walk, and it has its line.
    rintro ⟨inside, reaches⟩
    obtain ⟨walk, drawnWalk, ends⟩ := exists_drawnWalk_of_reaches inside reaches
    obtain ⟨line, drawn, call⟩ := lineOf walk ((member walk).mpr ⟨known, drawnWalk⟩)
    obtain ⟨last, record, ends', _, found, rfl⟩ := callOf_eq_some_iff.mp call
    obtain rfl : id = last := Option.some.inj (ends.symm.trans ends')
    obtain ⟨_, same⟩ := (Index.find?_eq_some_iff wellFormed).mp found
    exact ⟨_, record, (mem_callLines_iff.mp drawn).1, same⟩

/-- A diagram without lines draws nothing, and the other way round. -/
theorem renderBody_lines_eq_empty_iff :
    renderBody (lines index root included) = "" ↔
      ∀ id, ¬Draws (lines index root included) id := by
  rw [renderBody_eq_empty_iff]
  constructor
  · rintro empty id ⟨sender?, callee, drawn, _⟩
    simp [empty] at drawn
  · intro nothing
    rw [← (nested_lines index root included).callLines_eq_nil_iff, List.eq_nil_iff_forall_not_mem]
    intro line member
    obtain ⟨drawn, sender?, callee, rfl⟩ := mem_callLines_iff.mp member
    exact nothing callee.id ⟨sender?, callee, drawn, rfl⟩

/-- The call lines of a diagram and the drawn walks correspond one to one, in the order of a
depth-first search. A walk is no longer than the number of known callables allows. So exactly the
included callables that the root reaches are drawn. -/
theorem callLines_correspond_to_walks (reachable : index.Reachable) (known : root ∈ index.ids)
    (included : List CallableId) :
    (∃ walks : List (List CallableId),
      (∀ walk, walk ∈ walks ↔ DrawnWalk index root included walk) ∧
      (∀ walk ∈ walks, walk.length ≤ index.ids.length + 1) ∧
      walks.Nodup ∧ walks.Pairwise (Precedes index) ∧
      List.Forall₂ (ShowsEnd index) walks (callLines (lines index root included))) ∧
    (∀ id, Draws (lines index root included) id ↔ id ∈ included ∧ index.Reaches root id) ∧
    (renderBody (lines index root included) = "" ↔ ∀ id ∈ included, ¬index.Reaches root id) := by
  have wellFormed := reachable.wellFormed
  refine ⟨?_, draws_iff wellFormed known, ?_⟩
  · obtain ⟨walks, member, ordered, related⟩ := exists_drawnWalks wellFormed root included
    refine ⟨walks, ?_, ?_, ?_, ordered, ?_⟩
    · intro walk
      rw [member, and_iff_right known]
    · intro walk there
      exact length_le_of_mem_walksFrom (drawnWalk_iff.mp ((member walk).mp there).2).1
    · exact ordered.imp fun precedes => precedes.ne wellFormed
    · apply related.imp
      intro walk line call
      obtain ⟨last, callee, ends, _, found, rfl⟩ := callOf_eq_some_iff.mp call
      exact ⟨_, last, callee, rfl, ends, found, exists_render_call _ callee⟩
  · rw [renderBody_lines_eq_empty_iff]
    simp only [draws_iff wellFormed known, not_and]

section Example

private def mutualFact (spelling : String) : Fact :=
  .callable ⟨.function, [], spelling, spelling ++ "()", "void", true, ⟨"/f.cpp"⟩, ⟨"/f.cpp"⟩⟩

/-- The file where `f()` and `g()` call each other. -/
private def mutualRequest : IngestRequest where
  workspace :=
    ⟨⟨.directory [("f.cpp", .file [])], [], .plain⟩, fun path _ => .ok ⟨path,
      [mutualFact "f", mutualFact "g", .call ⟨"f()"⟩ ⟨"g()"⟩, .call ⟨"g()"⟩ ⟨"f()"⟩], []⟩⟩
  excluded := []
  file := ⟨"/f.cpp"⟩
  arguments := []

/-- From `f()` the call of `g()` is drawn although `f()` is not included. -/
theorem mutual_recursion_drawn :
    (Index.run ⟨none⟩ [mutualRequest]).Reachable ∧
      (⟨"f()"⟩ : CallableId) ∈ (Index.run ⟨none⟩ [mutualRequest]).ids ∧
      Draws (lines (Index.run ⟨none⟩ [mutualRequest]) ⟨"f()"⟩ [⟨"g()"⟩]) ⟨"g()"⟩ := by
  have reachable : (Index.run ⟨none⟩ [mutualRequest]).Reachable := ⟨_, _, rfl⟩
  have known : (⟨"f()"⟩ : CallableId) ∈ (Index.run ⟨none⟩ [mutualRequest]).ids := by decide
  have called : (Index.run ⟨none⟩ [mutualRequest]).HasCall ⟨"f()"⟩ ⟨"g()"⟩ := by
    unfold Index.HasCall
    decide
  obtain ⟨_, drawn, _⟩ := callLines_correspond_to_walks reachable known [⟨"g()"⟩]
  exact ⟨reachable, known, (drawn ⟨"g()"⟩).mpr ⟨List.mem_singleton_self _, .single called⟩⟩

end Example

end CallGraph.Diagram
