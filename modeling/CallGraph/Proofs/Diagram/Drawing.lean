import CallGraph.Diagram
import CallGraph.Proofs.Diagram.Walks

/-!
# Drawing a walk

One call of a diagram, with everything below it, is the unit of the drawing (`drawCall`). Two facts
hold of it whatever the graph looks like: its lines are bracketed (`Nested`), and its call lines are
those of the walks that start with it, in order (`callLines_drawCall`). For a whole diagram the
second one reads: the call lines are those of the walks that end at an included callable.
-/
namespace CallGraph.Diagram

variable {index : Index} {included : List CallableId}

/-- The lines below a call: none if it closes its path. -/
def drawBelow (index : Index) (included path : List CallableId) (sender? : Option String)
    (id : CallableId) : List Line :=
  if id ∈ path then [] else below index included (path ++ [id]) sender? id

/-- The lines for one call, with the callables above it on the path. -/
def drawCall (index : Index) (included path : List CallableId) (sender? : Option String)
    (callable : Callable) : List Line :=
  if callable.id ∈ included then
    bracket sender? callable
      (drawBelow index included path (some callable.participant) callable.id)
  else drawBelow index included path sender? callable.id

theorem below_eq (path : List CallableId) (sender? : Option String) (id : CallableId) :
    below index included path sender? id =
      (index.calleesOf id).flatMap (drawCall index included path sender?) := by
  rw [below]
  -- The definition carries memberships along for its termination; they do not matter here.
  simp only [List.flatMap_def, dite_eq_ite]
  have unattached := @List.attach_map_val _ _ (index.calleesOf id)
    (drawCall index included path sender?)
  rw [← unattached]
  rfl

/-- A diagram is the drawing of its root with nothing above it. -/
theorem lines_eq_drawCall {root : CallableId} {callable : Callable}
    (known : index.find? root = some callable) (same : callable.id = root) :
    lines index root included = drawCall index included [] none callable := by
  simp [lines, drawCall, drawBelow, known, same]

theorem lines_eq_nil_of_unknown {root : CallableId} (unknown : index.find? root = none) :
    lines index root included = [] := by
  simp [lines, unknown]

/-! ### Brackets -/

/-- Lines that bracket one another, drawn while a participant is active. -/
inductive Nested : Option String → List Line → Prop where
  | nil (sender? : Option String) : Nested sender? []
  | bracket {sender? : Option String} {callee : Callable} {inner later : List Line}
      (inside : Nested (some callee.participant) inner) (after : Nested sender? later) :
      Nested sender? (Diagram.bracket sender? callee inner ++ later)

namespace Nested

variable {sender? : Option String}

theorem append {first later : List Line} (nested : Nested sender? first)
    (after : Nested sender? later) : Nested sender? (first ++ later) := by
  induction nested with
  | nil => exact after
  | bracket inside _ _ ih =>
    rw [List.append_assoc]
    exact .bracket inside (ih after)

theorem single {callee : Callable} {inner : List Line}
    (inside : Nested (some callee.participant) inner) :
    Nested sender? (Diagram.bracket sender? callee inner) := by
  have closed := Nested.bracket inside (.nil sender?)
  rwa [List.append_nil] at closed

theorem flatMap {α : Type} {xs : List α} {draw : α → List Line}
    (each : ∀ x ∈ xs, Nested sender? (draw x)) : Nested sender? (xs.flatMap draw) := by
  induction xs with
  | nil => exact .nil sender?
  | cons x rest ih =>
    rw [List.flatMap_cons]
    exact (each x List.mem_cons_self).append
      (ih fun other member => each other (List.mem_cons_of_mem x member))

end Nested

theorem nested_drawCall (path : List CallableId) (sender? : Option String)
    (callable : Callable) : Nested sender? (drawCall index included path sender? callable) := by
  obtain ⟨id, same⟩ : ∃ id, callable.id = id := ⟨_, rfl⟩
  induction path, id using path_induction index generalizing sender? callable with
  | step path id ih =>
    subst same
    have inside (sender? : Option String) :
        Nested sender? (drawBelow index included path sender? callable.id) := by
      unfold drawBelow
      split
      · exact .nil sender?
      · rename_i new
        rw [below_eq]
        apply Nested.flatMap
        intro callee called
        exact ih new callee.id (List.mem_map_of_mem called) sender? callee rfl
    unfold drawCall
    split
    · exact .single (inside _)
    · exact inside sender?

theorem nested_lines (index : Index) (root : CallableId) (included : List CallableId) :
    Nested none (lines index root included) := by
  -- The root is drawn by its own rule, so this does not follow from `nested_drawCall` at once.
  have inside (sender? : Option String) :
      Nested sender? (below index included [root] sender? root) := by
    rw [below_eq]
    exact Nested.flatMap fun callee _ => nested_drawCall [root] sender? callee
  unfold lines
  split
  · exact .nil none
  · split
    · exact .single (inside _)
    · exact inside none

/-! ### Call lines -/

/-- Whether a line is a call. -/
def Line.isCall : Line → Bool
  | .call _ _ => true
  | .activate _ | .deactivate _ => false

/-- The calls among some lines. -/
def callLines (lines : List Line) : List Line := lines.filter Line.isCall

@[simp] theorem callLines_nil : callLines [] = [] := rfl

@[simp] theorem callLines_call (sender? : Option String) (callee : Callable) (rest : List Line) :
    callLines (.call sender? callee :: rest) = .call sender? callee :: callLines rest := rfl

@[simp] theorem callLines_activate (participant : String) (rest : List Line) :
    callLines (.activate participant :: rest) = callLines rest := rfl

@[simp] theorem callLines_deactivate (participant : String) (rest : List Line) :
    callLines (.deactivate participant :: rest) = callLines rest := rfl

@[simp] theorem callLines_append (first later : List Line) :
    callLines (first ++ later) = callLines first ++ callLines later := List.filter_append ..

@[simp] theorem callLines_bracket (sender? : Option String) (callee : Callable)
    (inner : List Line) :
    callLines (bracket sender? callee inner) = .call sender? callee :: callLines inner := by
  simp [bracket]

/-- Bracketed lines begin with a call. -/
theorem Nested.callLines_eq_nil_iff {sender? : Option String} {lines : List Line}
    (nested : Nested sender? lines) : callLines lines = [] ↔ lines = [] := by
  cases nested with
  | nil => simp
  | bracket => simp [Diagram.bracket]

/-- Whom the last included callable among those passed acts for; the given sender if there is
none. -/
def nearestSender (index : Index) (included : List CallableId) (sender? : Option String)
    (passed : List CallableId) : Option String :=
  match (passed.filter (· ∈ included)).getLast? with
  | some id => (index.find? id).map Callable.participant
  | none => sender?

/-- The line for the last call of a walk, which is drawn if the callable at the end is included. -/
def callOf (index : Index) (included : List CallableId) (sender? : Option String)
    (walk : List CallableId) : Option Line :=
  ((walk.getLast?.filter (· ∈ included)).bind index.find?).map
    (.call (nearestSender index included sender? walk.dropLast))

theorem nearestSender_cons (sender? : Option String) (first : CallableId)
    (rest : List CallableId) :
    nearestSender index included sender? (first :: rest) =
      nearestSender index included (if first ∈ included then
        (index.find? first).map Callable.participant else sender?) rest := by
  unfold nearestSender
  -- The first callable is the nearest one only if no included one comes later.
  by_cases drawn : first ∈ included
  · simp only [List.filter_cons, drawn, decide_true, if_true, List.getLast?_cons]
    cases (rest.filter (· ∈ included)).getLast? <;> rfl
  · simp [drawn]

theorem callOf_cons (sender? : Option String) (first : CallableId) {rest : List CallableId}
    (longer : rest ≠ []) :
    callOf index included sender? (first :: rest) =
      callOf index included (if first ∈ included then
        (index.find? first).map Callable.participant else sender?) rest := by
  unfold callOf
  rw [List.dropLast_cons_of_ne_nil longer, nearestSender_cons, List.getLast?_cons_of_ne_nil longer]

theorem callOf_singleton (sender? : Option String) (id : CallableId) :
    callOf index included sender? [id] =
      if id ∈ included then (index.find? id).map (.call sender?) else none := by
  by_cases drawn : id ∈ included
  · simp [callOf, nearestSender, drawn, Option.filter]
  · simp [callOf, drawn, Option.filter]

/-- The calls of the walks below a callable are drawn from it, if it is included. -/
theorem filterMap_callOf_walksFrom (path : List CallableId) (id : CallableId)
    (sender? : Option String) :
    (walksFrom index path id).filterMap (callOf index included sender?) =
      (callOf index included sender? [id]).toList ++ if id ∈ path then [] else
        (index.calleeIds id).flatMap fun callee =>
          (walksFrom index (path ++ [id]) callee).filterMap
            (callOf index included (if id ∈ included then
              (index.find? id).map Callable.participant else sender?)) := by
  have first : [[id]].filterMap (callOf index included sender?) =
      (callOf index included sender? [id]).toList := by
    cases drawn : callOf index included sender? [id] <;> simp [drawn]
  rw [walksFrom_eq, ← List.singleton_append, List.filterMap_append, first]
  by_cases onPath : id ∈ path
  · simp [onPath]
  · rw [if_neg onPath, if_neg onPath, List.filterMap_map, ← List.filterMap_flatMap]
    congr 1
    -- A walk from a callee has an end of its own, so `id` is passed on it and not its end.
    apply List.filterMap_congr
    intro walk member
    obtain ⟨callee, _, below⟩ := List.mem_flatMap.mp member
    apply callOf_cons
    rintro rfl
    exact nil_not_mem_walksFrom below

theorem callLines_drawCall (wellFormed : WellFormed index.nodes) (path : List CallableId)
    (sender? : Option String) (callable : Callable)
    (known : index.find? callable.id = some callable) :
    callLines (drawCall index included path sender? callable) =
      (walksFrom index path callable.id).filterMap (callOf index included sender?) := by
  obtain ⟨id, same⟩ : ∃ id, callable.id = id := ⟨_, rfl⟩
  induction path, id using path_induction index generalizing sender? callable with
  | step path id ih =>
    subst same
    -- The sender below a call depends on whether it is drawn, so this holds for any sender.
    have inside (sender? : Option String) :
        callLines (drawBelow index included path sender? callable.id) =
          if callable.id ∈ path then [] else (index.calleeIds callable.id).flatMap fun callee =>
            (walksFrom index (path ++ [callable.id]) callee).filterMap
              (callOf index included sender?) := by
      unfold drawBelow
      split
      · rfl
      · rename_i new
        rw [below_eq, callLines, List.filter_flatMap, Index.calleeIds, List.flatMap_map]
        apply List.flatMap_congr
        intro callee called
        exact ih new callee.id (List.mem_map_of_mem called) sender? callee
          (Index.find?_callee wellFormed called) rfl
    rw [filterMap_callOf_walksFrom, callOf_singleton, known, drawCall]
    by_cases drawn : callable.id ∈ included
    · simp [drawn, inside]
    · simp [drawn, inside]

/-- The walks whose last call a diagram draws: from its root along calls to an included callable,
past callables that all differ. -/
structure DrawnWalk (index : Index) (root : CallableId) (included walk : List CallableId) :
    Prop where
  starts : walk.head? = some root
  calls : walk.IsChain index.HasCall
  distinct : walk.dropLast.Nodup
  ends : ∃ last ∈ included, walk.getLast? = some last

theorem drawnWalk_iff {root : CallableId} {walk : List CallableId} :
    DrawnWalk index root included walk ↔
      walk ∈ walksFrom index [] root ∧ ∃ last ∈ included, walk.getLast? = some last := by
  rw [mem_walksFrom_iff]
  constructor
  · intro drawn
    exact ⟨⟨drawn.starts, drawn.calls, drawn.distinct, by simp⟩, drawn.ends⟩
  · rintro ⟨⟨starts, calls, distinct, _⟩, ends⟩
    exact ⟨starts, calls, distinct, ends⟩

/-- All callables on a walk from a known one are known. -/
theorem find?_getLast_of_walk (wellFormed : WellFormed index.nodes) {walk : List CallableId}
    {root last : CallableId} (known : root ∈ index.ids) (starts : walk.head? = some root)
    (calls : walk.IsChain index.HasCall) (ends : walk.getLast? = some last) :
    ∃ callee, index.find? last = some callee := by
  have reaches := reaches_of_walk starts calls ends
  have there := Index.known_of_reaches wellFormed known reaches
  exact Option.ne_none_iff_exists'.mp fun missing => Index.find?_eq_none_iff.mp missing there

theorem callOf_eq_some_iff {sender? : Option String} {walk : List CallableId} {line : Line} :
    callOf index included sender? walk = some line ↔
      ∃ last callee, walk.getLast? = some last ∧ last ∈ included ∧
        index.find? last = some callee ∧
        line = .call (nearestSender index included sender? walk.dropLast) callee := by
  simp only [callOf, Option.map_eq_some_iff, Option.bind_eq_some_iff, Option.filter_eq_some_iff,
    decide_eq_true_eq]
  constructor
  · rintro ⟨callee, ⟨last, ⟨ends, drawn⟩, found⟩, rfl⟩
    exact ⟨last, callee, ends, drawn, found, rfl⟩
  · rintro ⟨last, callee, ends, drawn, found, rfl⟩
    exact ⟨callee, ⟨last, ⟨ends, drawn⟩, found⟩, rfl⟩

/-- What `filterMap` yields comes, in order, from the elements that yield something. -/
theorem forall₂_filterMap {α β : Type} (f : α → Option β) (xs : List α) :
    List.Forall₂ (fun x y => f x = some y) (xs.filter fun x => (f x).isSome) (xs.filterMap f) := by
  induction xs with
  | nil => exact .nil
  | cons x rest ih =>
    cases found : f x with
    | none => simpa [found] using ih
    | some y => simpa [found] using ih

/-- Elements that stand in one-to-one correspondence have partners. -/
theorem exists_of_forall₂ {α β : Type} {rel : α → β → Prop} {xs : List α} {ys : List β}
    (related : List.Forall₂ rel xs ys) :
    (∀ x ∈ xs, ∃ y ∈ ys, rel x y) ∧ ∀ y ∈ ys, ∃ x ∈ xs, rel x y := by
  induction related with
  | nil => simp
  | cons here _ ih =>
    obtain ⟨forward, backward⟩ := ih
    constructor
    · rintro x (_ | ⟨_, member⟩)
      · exact ⟨_, List.mem_cons_self, here⟩
      · obtain ⟨y, there, same⟩ := forward x member
        exact ⟨y, List.mem_cons_of_mem _ there, same⟩
    · rintro y (_ | ⟨_, member⟩)
      · exact ⟨_, List.mem_cons_self, here⟩
      · obtain ⟨x, there, same⟩ := backward y member
        exact ⟨x, List.mem_cons_of_mem _ there, same⟩

/-- The call lines of a diagram belong, one to one and in order, to the drawn walks. -/
theorem exists_drawnWalks (wellFormed : WellFormed index.nodes) (root : CallableId)
    (included : List CallableId) :
    ∃ walks : List (List CallableId),
      (∀ walk, walk ∈ walks ↔ root ∈ index.ids ∧ DrawnWalk index root included walk) ∧
      walks.Pairwise (Precedes index) ∧
      List.Forall₂ (fun walk line => callOf index included none walk = some line) walks
        (callLines (lines index root included)) := by
  cases found : index.find? root with
  | none =>
    have unknown := Index.find?_eq_none_iff.mp found
    -- Nothing is drawn for an unknown root, whatever is included.
    refine ⟨[], by simp [unknown], .nil, ?_⟩
    rw [lines_eq_nil_of_unknown found]
    exact .nil
  | some callable =>
    have known := Index.mem_ids_of_find? found
    obtain ⟨_, rfl⟩ := (Index.find?_eq_some_iff wellFormed).mp found
    refine ⟨(walksFrom index [] callable.id).filter fun walk =>
      (callOf index included none walk).isSome, ?_, ?_, ?_⟩
    · intro walk
      rw [List.mem_filter, drawnWalk_iff, Option.isSome_iff_exists]
      constructor
      · rintro ⟨member, line, drawn⟩
        obtain ⟨last, _, ends, drawn, _⟩ := callOf_eq_some_iff.mp drawn
        exact ⟨known, member, last, drawn, ends⟩
      · rintro ⟨_, member, last, drawn, ends⟩
        obtain ⟨starts, calls, _⟩ := mem_walksFrom_iff.mp member
        obtain ⟨callee, there⟩ := find?_getLast_of_walk wellFormed known starts calls ends
        exact ⟨member, _, callOf_eq_some_iff.mpr ⟨last, callee, ends, drawn, there, rfl⟩⟩
    · exact (pairwise_walksFrom [] callable.id).filter _
    · rw [lines_eq_drawCall found rfl, callLines_drawCall wellFormed [] none callable found]
      exact forall₂_filterMap _ _

end CallGraph.Diagram
