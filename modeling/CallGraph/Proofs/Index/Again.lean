import CallGraph.Proofs.Index.Reference
import CallGraph.Proofs.Index.Report

/-!
# Ingesting a file again

Main result: `ingest_again`. If a unit reports its callables before its calls, then ingesting its
file once more leaves the graph exactly as it is, and nothing is listed and no call added.

The second merge does not pass over the file: it opens every definition without callees again and
rewrites its record. That it ends where the first one did is read off the reference (`mergedRow`):
a row that was made from some records and callees comes out the same when it is merged with them
again, and the callees that count are the same, since all callables of the unit are known to both
merges before their calls. A well-formed graph is told by its keys and rows (`WellFormed.ext`), so
the nodes are the same as well.
-/
namespace CallGraph

/-! ### Keys and rows tell a graph -/

attribute [ext] GraphNode

/-- Known positions are told by the keys that stand there. -/
theorem WellFormed.eq_of_filterMap_keyAt? {nodes : List GraphNode} (wellFormed : WellFormed nodes)
    {left right : List Nat} (leftKnown : ∀ position ∈ left, position < nodes.length)
    (rightKnown : ∀ position ∈ right, position < nodes.length)
    (same : left.filterMap (keyAt? nodes) = right.filterMap (keyAt? nodes)) : left = right := by
  have named {position : Nat} (known : position < nodes.length) :
      keyAt? nodes position = some nodes[position].key :=
    keyAt?_eq_some_iff.mpr ⟨_, List.getElem?_eq_getElem known, rfl⟩
  induction left generalizing right with
  | nil =>
    cases right with
    | nil => rfl
    | cons place right =>
      rw [List.filterMap_cons_some (named (rightKnown place List.mem_cons_self))] at same
      cases same
  | cons position left ih =>
    obtain ⟨here, leftRest⟩ := List.forall_mem_cons.mp leftKnown
    rw [List.filterMap_cons_some (named here)] at same
    cases right with
    | nil => cases same
    | cons place right =>
      obtain ⟨there, rightRest⟩ := List.forall_mem_cons.mp rightKnown
      rw [List.filterMap_cons_some (named there), List.cons.injEq] at same
      have samePlace := wellFormed.position_unique (List.getElem?_eq_getElem here)
        (List.getElem?_eq_getElem there) same.1
      rw [samePlace, ih leftRest rightRest same.2]

/-- Two graphs with the same keys in the same order and the same rows are the same. -/
theorem WellFormed.ext {left right : List GraphNode} (atLeft : WellFormed left)
    (atRight : WellFormed right) (keys : left.map GraphNode.key = right.map GraphNode.key)
    (rows : ∀ id, row? left id = row? right id) : left = right := by
  have named : keyAt? left = keyAt? right := by
    funext position
    rw [keyAt?, keyAt?, keys]
  have size : left.length = right.length := by simpa using congrArg List.length keys
  refine List.ext_getElem size fun position inLeft inRight => ?_
  have first := List.getElem?_eq_getElem inLeft
  have second := List.getElem?_eq_getElem inRight
  have sameKey : left[position].key = right[position].key := by
    simpa [inLeft, inRight] using congrArg (·[position]?) keys
  have sameRow : left[position].row left = right[position].row right := by
    have row := rows left[position].key
    rw [atLeft.row?_of_getElem? first, sameKey, atRight.row?_of_getElem? second] at row
    exact Option.some.inj row
  simp only [GraphNode.row, GraphRow.mk.injEq, named] at sameRow
  have inBounds := (atLeft.fits _ (List.mem_of_getElem? first)).callees_known
  rw [size] at inBounds
  exact GraphNode.ext sameKey sameRow.1 (atRight.eq_of_filterMap_keyAt? inBounds
    (atRight.fits _ (List.mem_of_getElem? second)).callees_known sameRow.2)

/-! ### Merging the same once more -/

/-- What some records and callees have made of a row, they make of it again. -/
theorem mergedRow_again (known? : Option GraphRow) (records : List Callable)
    (callees : List CallableId) :
    mergedRow (mergedRow known? records callees) records callees =
      mergedRow known? records callees := by
  cases last : (records.filter Callable.isDefinition).getLast? with
  | none =>
    rw [mergedRow_of_undefining last, mergedRow_of_undefining last]
    cases known? <;> cases records <;> rfl
  | some definition =>
    by_cases unfinished : Unfinished known?
    · rw [mergedRow_of_definition unfinished last]
      -- The last definition is final if it has callees, and takes its own place if it has none.
      by_cases still : Unfinished (some ⟨definition, callees.eraseDups⟩)
      · rw [mergedRow_of_definition still last]
      · rw [mergedRow_of_finished still]
    · rw [mergedRow_of_finished unfinished, mergedRow_of_finished unfinished]

/-- A merge that leaves every row as it was lists nothing. -/
theorem Merge.Told.updated_eq_nil {before : List GraphNode} {merge : Merge}
    (told : Merge.Told before merge) (same : merge.nodes = before) : merge.updated = [] := by
  refine List.eq_nil_iff_forall_not_mem.mpr fun id member => ?_
  rcases told.mem_updated_iff.mp member with ⟨unknown, known⟩ | ⟨old, new, atOld, atNew, changed⟩
  · exact known (same ▸ unknown)
  · rw [same, atOld, Option.some.injEq] at atNew
    rw [← atNew, changed.1] at changed
    cases changed.2

/-- The second of two merges of the same facts changes, lists and adds nothing. -/
theorem mergeFacts_again {index middle : Index} (wellFormed : WellFormed index.nodes)
    {excluded : List Path} {facts : List Fact} (ordered : CallablesFirst facts)
    (root : middle.root = index.root)
    (nodes : middle.nodes = (index.mergeFacts excluded facts).nodes) :
    (middle.mergeFacts excluded facts).nodes = middle.nodes ∧
      (middle.mergeFacts excluded facts).updated = [] ∧
      (middle.mergeFacts excluded facts).edgesAdded = 0 ∧
      (middle.mergeFacts excluded facts).filtered =
        (index.mergeFacts excluded facts).filtered := by
  have still : WellFormed middle.nodes :=
    nodes ▸ (mergedFrom_mergeFacts wellFormed excluded facts).wellFormed
  have first := mergesById_mergeFacts wellFormed excluded ordered
  have second := mergesById_mergeFacts still excluded ordered
  have known : ∀ id, id ∈ middle.ids ↔ id ∈ index.ids ∨
      id ∈ (observations index.root excluded facts).map Callable.id := by
    intro id
    rw [Index.ids, nodes, first.ids, List.mem_append, List.mem_eraseDups, List.mem_filter,
      decide_eq_true_eq]
    by_cases old : id ∈ index.ids <;> simp [old]
  have unchanged : (middle.mergeFacts excluded facts).nodes = middle.nodes := by
    have later := (mergedFrom_mergeFacts still excluded facts).wellFormed
    refine WellFormed.ext later still ?_ fun id => ?_
    · -- All callables of the unit are known by now.
      rw [second.ids, root, List.filter_eq_nil_iff.mpr, List.eraseDups_nil, List.append_nil,
        Index.ids]
      intro id member
      simpa using (known id).mpr (.inr member)
    · have counted : ∀ callee, (callee ∈ middle.ids ∨
          callee ∈ (observations index.root excluded facts).map Callable.id) ↔
          (callee ∈ index.ids ∨
            callee ∈ (observations index.root excluded facts).map Callable.id) := by
        intro callee
        rw [known, or_assoc, or_self]
      rw [second.row, root]
      simp only [counted]
      rw [nodes, first.row, mergedRow_again]
  refine ⟨unchanged, (told_mergeFacts still excluded facts).updated_eq_nil unchanged, ?_, ?_⟩
  · have edges := second.edges
    rw [unchanged, Index.callCount] at edges
    omega
  · rw [second.filtered, first.filtered]

theorem addPath_again (paths : List Path) (path : Path) :
    addPath (addPath paths path) path = addPath paths path := by
  rw [addPath, if_pos (any_same_addPath paths path)]

/-- Ingesting a file whose unit reports its callables before its calls succeeds, and ingesting it
again right away leaves the index exactly as it is: nothing is listed, no call is added, and as many
callables are left out as before. -/
theorem Index.ingest_again {index : Index} (reachable : index.Reachable) (tools : Toolchain)
    {file path : Path} (arguments : List String) (keepSystem : Bool) {unit : UnitFacts}
    (found : tools.files.canonical? file = some path)
    (analyzed : tools.analyze path arguments = .ok unit) (ordered : CallablesFirst unit.facts) :
    ∃ after report, index.ingest tools file arguments keepSystem = .ok (after, report) ∧
      after.ingest tools file arguments keepSystem =
        .ok (after, { report with updated := [], edgesAdded := 0 }) := by
  let excluded := tools.excludedDirectories arguments keepSystem
  let after : Index :=
    ⟨index.root, (index.mergeFacts excluded unit.facts).nodes, addPath index.ingested path⟩
  obtain ⟨nodes, updated, edges, filtered⟩ :=
    @mergeFacts_again index after reachable.wellFormed excluded _ ordered rfl rfl
  refine ⟨after, _, ingestExcluding_eq_ok_iff.mpr ⟨path, unit, _, found, analyzed, rfl, rfl, rfl⟩,
    ingestExcluding_eq_ok_iff.mpr ⟨path, unit, _, found, analyzed, rfl, ?_, ?_⟩⟩
  · rw [nodes, addPath_again]
  · rw [updated, edges, filtered]

section Example

private def timerSymbol (file : Path) (name resultType : String) (isDefinition : Bool) :
    SymbolFact :=
  ⟨.function, [], name, name ++ "()", resultType, isDefinition, file, ⟨"/w/t.cpp"⟩⟩

private def timerSymbols : List SymbolFact :=
  [timerSymbol ⟨"/sys/time.h"⟩ "now" "int" true, timerSymbol ⟨"/w/t.cpp"⟩ "tick" "int" false,
    timerSymbol ⟨"/w/t.cpp"⟩ "tick" "int" true, timerSymbol ⟨"/w/t.cpp"⟩ "idle" "int" true,
    timerSymbol ⟨"/w/t.cpp"⟩ "tick" "long" true]

private def timerCalls : List (CallableId × CallableId) :=
  [(⟨"tick()"⟩, ⟨"now()"⟩), (⟨"tick()"⟩, ⟨"stop()"⟩), (⟨"tick()"⟩, ⟨"tick()"⟩)]

/-- A unit that declares `tick()` and defines it twice, the second time as `long tick()`. It calls
itself, `stop()`, which is not known, and `now()`, which belongs to the system. `idle()` is defined
and calls nothing. -/
private def timerUnit : UnitFacts where
  translationUnit := ⟨"/w/t.cpp"⟩
  facts := timerSymbols.map Fact.callable ++ timerCalls.map fun call => Fact.call call.1 call.2
  warnings := []

private def timerTools : Toolchain where
  files := ⟨.directory [("w", .directory [("t.cpp", .file [])])], ["w"], .plain⟩
  analyze _ _ := .ok timerUnit
  systemDirectories _ := [⟨"/sys"⟩]

/-- The last definition wins both times, and the calls that were left out stay so. -/
theorem ingest_again_twice_defined :
    (Index.empty ⟨none⟩).Reachable ∧ timerTools.files.canonical? ⟨"t.cpp"⟩ = some ⟨"/w/t.cpp"⟩ ∧
      timerTools.analyze ⟨"/w/t.cpp"⟩ [] = .ok timerUnit ∧ CallablesFirst timerUnit.facts ∧
      ∃ after report, (Index.empty ⟨none⟩).ingest timerTools ⟨"t.cpp"⟩ [] false =
          .ok (after, report) ∧
        (after.callables.map Callable.qualifiedName, after.callCount, report.filtered) =
          (["long tick()", "int idle()"], 1, 1) ∧
        after.ingest timerTools ⟨"t.cpp"⟩ [] false =
          .ok (after, { report with updated := [], edgesAdded := 0 }) := by
  have reachable : (Index.empty ⟨none⟩).Reachable := ⟨⟨none⟩, [], rfl⟩
  have found : timerTools.files.canonical? ⟨"t.cpp"⟩ = some ⟨"/w/t.cpp"⟩ := by decide +kernel
  have ordered : CallablesFirst timerUnit.facts := ⟨timerSymbols, timerCalls, rfl⟩
  obtain ⟨after, report, first, again⟩ :=
    Index.ingest_again reachable timerTools [] false found rfl ordered
  refine ⟨reachable, found, rfl, ordered, after, report, first, ?_, again⟩
  have shape : ((Index.empty ⟨none⟩).ingest timerTools ⟨"t.cpp"⟩ [] false).toOption.map
      (fun result => (result.1.callables.map Callable.qualifiedName, result.1.callCount,
        result.2.filtered)) = some (["long tick()", "int idle()"], 1, 1) := by decide +kernel
  rw [first] at shape
  exact Option.some.inj shape

end Example

end CallGraph
