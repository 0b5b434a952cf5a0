import CallGraph.Proofs.Index.Row
import CallGraph.Proofs.Index.Run
import CallGraph.Session.InPlace

/-!
# What an ingest reports

Main result: `report_accounts_for_changes`. The report of an ingest lists the callables that are
new and those that became definitions, and no others. A change that it does not list can only be
that of a definition without callees, which the unit defines again.

The invariant of a merge is `Told`: what has been listed so far accounts for every difference from
the graph at the start, redefinitions apart.
-/
namespace CallGraph

/-- The callable was not known. -/
def Inserted (old? new? : Option GraphRow) : Prop := old? = none ∧ new? ≠ none

/-- A declaration has become a definition. -/
def Upgraded (old? new? : Option GraphRow) : Prop :=
  ∃ old new, old? = some old ∧ new? = some new ∧ old.callable.isDefinition = false ∧
    new.callable.isDefinition = true

/-- A definition without callees has been put in the place of another, or has gained callees. -/
def Redefined (old? new? : Option GraphRow) : Prop :=
  ∃ old new, old? = some old ∧ new? = some new ∧ old.callable.isDefinition = true ∧
    old.callees = [] ∧ new.callable.isDefinition = true

/-- What a merge has listed accounts for what it has changed in the nodes `before`. -/
structure Merge.Told (before : List GraphNode) (merge : Merge) : Prop where
  keys : merge.nodes.map GraphNode.key = merge.updated.foldl pushNew (before.map GraphNode.key)
  listed : ∀ id ∈ merge.updated, ∃ new, row? merge.nodes id = some new ∧
    ∀ old, row? before id = some old →
      old.callable.isDefinition = false ∧ new.callable.isDefinition = true
  unlisted : ∀ id, id ∉ merge.updated →
    row? merge.nodes id = row? before id ∨ Redefined (row? before id) (row? merge.nodes id)

/-- A callable whose node had no callees at the start had none in its row. -/
theorem MergedFrom.row_unfinished {root : DisplayRoot} {excluded : List Path} {facts : List Fact}
    {before : List GraphNode} {merge : Merge}
    (merged : MergedFrom root excluded facts before merge) {node : GraphNode} {position : Nat}
    (found : merge.nodes[position]? = some node)
    (unfinished : ∀ old, before[position]? = some old → old.callees = [])
    {row : GraphRow} (atStart : row? before node.key = some row) : row.callees = [] := by
  obtain ⟨place, first, atPlace, named, rfl⟩ := getElem?_of_row? atStart
  obtain ⟨later, kept, same⟩ := key_kept merged.keys atPlace
  have here := merged.wellFormed.position_unique kept found (same.trans named)
  have bare : first.callees = [] := unfinished first (here ▸ atPlace)
  simp [GraphNode.row, bare]

namespace Merge.Told

variable {before : List GraphNode} {merge : Merge}

theorem start (before : List GraphNode) : Told before (.start before) where
  keys := rfl
  listed := by simp [Merge.start]
  unlisted _ _ := .inl rfl

/-- A key that was there before, or has been listed since, and no other. -/
theorem mem_keys_iff (told : Told before merge) {id : CallableId} :
    id ∈ merge.nodes.map GraphNode.key ↔ id ∈ before.map GraphNode.key ∨ id ∈ merge.updated := by
  rw [told.keys, foldl_pushNew, List.mem_append, List.mem_eraseDups, List.mem_filter]
  by_cases known : id ∈ before.map GraphNode.key <;> simp [known]

theorem discover (told : Told before merge) (wellFormed : WellFormed merge.nodes)
    {callable : Callable} (new : callable.id ∉ merge.nodes.map GraphNode.key) :
    Told before (merge.discover callable) where
  keys := by
    rw [Merge.keys_discover, told.keys, Merge.discover, List.foldl_append, List.foldl_cons,
      List.foldl_nil, ← told.keys, pushNew, if_neg new]
  listed := by
    intro id member
    rw [Merge.row?_discover wellFormed new]
    rcases List.mem_append.mp member with old | last
    · have known := told.mem_keys_iff.mpr (.inr old)
      have elsewhere : id ≠ callable.id := fun same => new (same ▸ known)
      rw [if_neg elsewhere]
      exact told.listed id old
    · have here := List.mem_singleton.mp last
      have absent : row? before id = none :=
        row?_eq_none_iff.mpr fun known => new (here ▸ told.mem_keys_iff.mpr (.inl known))
      exact ⟨_, if_pos here, by simp [absent]⟩
  unlisted := by
    intro id missing
    rw [Merge.discover, List.mem_append, not_or, List.mem_singleton] at missing
    rw [Merge.row?_discover wellFormed new, if_neg missing.2]
    exact told.unlisted id missing.1

theorem redefine (told : Told before merge) (wellFormed : WellFormed merge.nodes)
    {callable : Callable} {node : GraphNode} {position : Nat}
    (found : merge.nodes[position]? = some node) (same : node.key = callable.id)
    (defined : callable.isDefinition = true) (empty : node.callees = []) :
    Told before (merge.redefine node position callable) := by
  have row : row? merge.nodes callable.id = some ⟨node.callable, []⟩ := by
    rw [← same, wellFormed.row?_of_getElem? found, GraphNode.row, empty, List.filterMap_nil]
  have known : callable.id ∈ merge.nodes.map GraphNode.key := same ▸ key_mem_of_getElem? found
  -- Whether the callable is listed depends on what it was when this unit came to it.
  have grown : ∀ id, id ∈ (merge.redefine node position callable).updated ↔
      id ∈ merge.updated ∨ id = callable.id ∧ node.callable.isDefinition = false := by
    intro id
    cases state : node.callable.isDefinition <;> simp [Merge.redefine, state]
  constructor
  · rw [Merge.keys_redefine, told.keys]
    cases state : node.callable.isDefinition
    · simp only [Merge.redefine, state, Bool.false_eq_true, if_false, List.foldl_append,
        List.foldl_cons, List.foldl_nil]
      rw [← told.keys, pushNew, if_pos known]
    · simp only [Merge.redefine, state, if_true]
  · intro id member
    rw [Merge.row?_redefine wellFormed found same empty]
    by_cases here : id = callable.id
    · rw [if_pos here]
      refine ⟨_, rfl, fun old atOld => ⟨?_, defined⟩⟩
      subst here
      by_cases before_ : callable.id ∈ merge.updated
      · obtain ⟨_, _, upgraded⟩ := told.listed _ before_
        exact (upgraded old atOld).1
      · -- Not listed so far, so it is a declaration that this unit has not touched.
        have declared := ((grown callable.id).mp member).resolve_left before_ |>.2
        rcases told.unlisted _ before_ with kept | ⟨_, new, _, atNew, _, _, newDefined⟩
        · rw [← kept, row, Option.some.injEq] at atOld
          rw [← atOld]
          exact declared
        · rw [row, Option.some.injEq] at atNew
          rw [← atNew, declared] at newDefined
          cases newDefined
    · rw [if_neg here]
      exact told.listed id (((grown id).mp member).resolve_right fun last => here last.1)
  · intro id missing
    rw [grown, not_or] at missing
    rw [Merge.row?_redefine wellFormed found same empty]
    by_cases here : id = callable.id
    · rw [if_pos here]
      subst here
      have state : node.callable.isDefinition = true := by
        simpa using missing.2
      right
      rcases told.unlisted _ missing.1 with kept | ⟨old, _, atOld, _, oldDefined, bare, _⟩
      · exact ⟨_, _, kept ▸ row, rfl, state, rfl, defined⟩
      · exact ⟨old, _, atOld, rfl, oldDefined, bare, defined⟩
    · rw [if_neg here]
      exact told.unlisted id missing.1

theorem link {root : DisplayRoot} {excluded : List Path} {facts : List Fact}
    (told : Told before merge) (merged : MergedFrom root excluded facts before merge)
    {node other : GraphNode} {position target : Nat}
    (found : merge.nodes[position]? = some node) (opened : position ∈ merge.opened)
    (known : merge.nodes[target]? = some other)
    (later : WellFormed (merge.link position target).nodes) :
    Told before (merge.link position target) := by
  -- Only a definition that had no callees at the start is open.
  obtain ⟨unfinished, fresh⟩ := merged.fresh_of_opened found opened
  have defined : node.callable.isDefinition = true := MergedFrom.isDefinition_of_fromFacts fresh
  have row := merged.wellFormed.row?_of_getElem? found
  constructor
  · rw [Merge.keys_link]
    exact told.keys
  · intro id member
    obtain ⟨new, atNew, upgraded⟩ := told.listed id member
    rw [Merge.row?_link merged.wellFormed found known later]
    by_cases here : id = node.key
    · subst here
      rw [row, Option.some.injEq] at atNew
      subst atNew
      exact ⟨_, if_pos rfl, upgraded⟩
    · exact ⟨new, (if_neg here).trans atNew, upgraded⟩
  · intro id missing
    rw [Merge.row?_link merged.wellFormed found known later]
    by_cases here : id = node.key
    · subst here
      rw [if_pos rfl]
      right
      rcases told.unlisted _ missing with kept | ⟨old, _, atOld, _, oldDefined, bare, _⟩
      · rw [row] at kept
        exact ⟨_, _, kept.symm, rfl, defined,
          merged.row_unfinished found unfinished kept.symm, defined⟩
      · exact ⟨old, _, atOld, rfl, oldDefined, bare, defined⟩
    · rw [if_neg here]
      exact told.unlisted id missing

theorem step {root : DisplayRoot} {excluded : List Path} {facts : List Fact}
    (told : Told before merge) (merged : MergedFrom root excluded facts before merge)
    {fact : Fact} (member : fact ∈ facts) : Told before (merge.addFact root excluded fact) := by
  have later := (merged.step member).wellFormed
  cases fact with
  | callable symbol =>
    rw [Merge.addFact] at later ⊢
    split
    · exact ⟨told.keys, told.listed, told.unlisted⟩
    · have change := merge.addCallable_change (symbol.toCallable root)
      generalize merge.addCallable (symbol.toCallable root) = after at change ⊢
      cases change with
      | discover new => exact told.discover merged.wellFormed new
      | redefine found same defined empty =>
        exact told.redefine merged.wellFormed found same defined empty
      | keep => exact told
  | call caller callee =>
    rw [Merge.addFact] at later ⊢
    have change := merge.addCall_change caller callee
    generalize merge.addCall caller callee = after at change later ⊢
    cases change with
    | link found same known named opened new => exact told.link merged found opened known later
    | keep => exact told
    | unknown => exact told

/-- What is listed is what is new or has become a definition. -/
theorem mem_updated_iff (told : Told before merge) {id : CallableId} :
    id ∈ merge.updated ↔ Inserted (row? before id) (row? merge.nodes id) ∨
      Upgraded (row? before id) (row? merge.nodes id) := by
  constructor
  · intro member
    obtain ⟨new, atNew, upgraded⟩ := told.listed id member
    cases atOld : row? before id with
    | none => exact .inl ⟨rfl, by simp [atNew]⟩
    | some old =>
      obtain ⟨declared, defined⟩ := upgraded old atOld
      exact .inr ⟨old, new, rfl, atNew, declared, defined⟩
  · -- A change that is not listed starts from a definition, and so is neither of the two.
    intro changed
    by_contra missing
    rcases told.unlisted id missing with kept | ⟨first, _, atFirst, _, defined, _⟩
    · rcases changed with ⟨unknown, known⟩ | ⟨old, new, atOld, atNew, declared, defined⟩
      · exact known (kept.trans unknown)
      · have same : new = old := Option.some.inj (atNew.symm.trans (kept.trans atOld))
        rw [same, declared] at defined
        cases defined
    · rcases changed with ⟨unknown, _⟩ | ⟨old, _, atOld, _, declared, _⟩
      · rw [unknown] at atFirst
        cases atFirst
      · have same : first = old := Option.some.inj (atFirst.symm.trans atOld)
        rw [same, declared] at defined
        cases defined

end Merge.Told

/-- All facts of a unit are accounted for. -/
theorem told_mergeFacts {index : Index} (wellFormed : WellFormed index.nodes)
    (excluded : List Path) (facts : List Fact) :
    Merge.Told index.nodes (index.mergeFacts excluded facts) := by
  -- The report is right only of a merge that is well formed, so both invariants go together.
  let Holds (merge : Merge) : Prop :=
    MergedFrom index.root excluded facts index.nodes merge ∧ Merge.Told index.nodes merge
  have both : Holds (index.mergeFacts excluded facts) := by
    refine List.foldlRecOn (motive := Holds) facts _ ⟨.start wellFormed, .start _⟩ ?_
    rintro merge ⟨merged, told⟩ fact member
    exact ⟨merged.step member, told.step merged member⟩
  exact both.2

/-- Told of are the callables that are listed, with their records as they are now. -/
theorem mem_updateEvents_iff {index : Index} {updated : List CallableId} {event : Event} :
    event ∈ updateEvents index updated ↔
      ∃ id ∈ updated, ∃ callable, index.find? id = some callable ∧
        event = .callableUpdated callable := by
  simp only [updateEvents, List.mem_filterMap, List.mem_eraseDups, Option.map_eq_some_iff,
    @eq_comm _ event]

/-- The report of an ingest lists exactly what is new or has become a definition. A row that has
changed and is not listed was that of a definition without callees. An observer is told of all
that is listed. -/
theorem Index.report_accounts_for_changes {index after : Index} (reachable : index.Reachable)
    {tools : Toolchain} {file : Path} {arguments : List String} {keepSystem : Bool}
    {report : IngestReport}
    (success : index.ingest tools file arguments keepSystem = .ok (after, report)) :
    (∀ id, id ∈ report.updated ↔ Inserted (row? index.nodes id) (row? after.nodes id) ∨
      Upgraded (row? index.nodes id) (row? after.nodes id)) ∧
    (∀ id, row? after.nodes id ≠ row? index.nodes id → id ∈ report.updated ∨
      Redefined (row? index.nodes id) (row? after.nodes id)) ∧
    ∀ id ∈ report.updated, ∃ callable, after.find? id = some callable ∧
      .callableUpdated callable ∈ updateEvents after report.updated := by
  obtain ⟨path, unit, merge, _, _, merged, rfl, rfl⟩ := ingestExcluding_eq_ok_iff.mp success
  have told : Merge.Told index.nodes merge := by
    rw [merged]
    exact told_mergeFacts reachable.wellFormed _ unit.facts
  refine ⟨fun id => told.mem_updated_iff, ?_, ?_⟩
  · intro id changed
    by_contra escaped
    rw [not_or] at escaped
    exact (told.unlisted id escaped.1).elim changed escaped.2
  · intro id member
    obtain ⟨new, atNew, _⟩ := told.listed id member
    have found : Index.find? ⟨index.root, merge.nodes, addPath index.ingested path⟩ id =
        some new.callable := by
      rw [find?_eq_row?, atNew, Option.map_some]
    exact ⟨new.callable, found, mem_updateEvents_iff.mpr ⟨id, member, _, found, rfl⟩⟩

section Example

/-- A definition of a function without parameters. -/
private def definedIn (file : Path) (name : String) : SymbolFact where
  kind := .function
  scope := []
  spelling := name
  displayName := name ++ "()"
  resultType := "int"
  isDefinition := true
  sourceFile := file
  translationUnit := file

/-- Two files that define `f()`, the second also `g()`. With an argument, `f()` is found to call
itself. -/
private def twoDefinitions : Workspace where
  files := ⟨.directory [("a.cpp", .file []), ("b.cpp", .file [])], [], .plain⟩
  analyze path arguments := .ok
    { translationUnit := path
      facts := [.callable (definedIn path "f")] ++
        (if path = ⟨"/b.cpp"⟩ then [.callable (definedIn path "g")] else []) ++
        (if arguments = [] then [] else [.call ⟨"f()"⟩ ⟨"f()"⟩])
      warnings := [] }

private def firstDefinition : Index := .run ⟨none⟩ [⟨twoDefinitions, [], ⟨"/a.cpp"⟩, []⟩]

/-- What comes of a further ingest. -/
private def afterFirst (file : Path) (arguments : List String) : Index × IngestReport :=
  ((firstDefinition.ingest twoDefinitions.toolchain file arguments true).toOption).getD default

/-- A second definition is merged and not listed, and the new callable beside it is told of. -/
theorem second_definition_accounted_for :
    firstDefinition.Reachable ∧ ∃ after report,
      firstDefinition.ingest twoDefinitions.toolchain ⟨"/b.cpp"⟩ [] true = .ok (after, report) ∧
      Redefined (row? firstDefinition.nodes ⟨"f()"⟩) (row? after.nodes ⟨"f()"⟩) ∧
      ⟨"g()"⟩ ∈ report.updated ∧ ∃ callable, after.find? ⟨"g()"⟩ = some callable ∧
        .callableUpdated callable ∈ updateEvents after report.updated := by
  have reachable : firstDefinition.Reachable := ⟨_, _, rfl⟩
  have success : firstDefinition.ingest twoDefinitions.toolchain ⟨"/b.cpp"⟩ [] true =
    .ok ((afterFirst ⟨"/b.cpp"⟩ []).1, (afterFirst ⟨"/b.cpp"⟩ []).2) := by decide
  obtain ⟨_, changes, told⟩ := Index.report_accounts_for_changes reachable success
  exact ⟨reachable, _, _, success, (changes ⟨"f()"⟩ (by decide)).resolve_left (by decide),
    by decide, told ⟨"g()"⟩ (by decide)⟩

/-- A definition without callees is replaced by one in another file, or gains a callee from its own
file, and neither is listed. -/
theorem redefinitions_escape_report :
    firstDefinition.Reachable ∧
    (∃ after report, firstDefinition.ingest twoDefinitions.toolchain ⟨"/b.cpp"⟩ [] true =
        .ok (after, report) ∧
      firstDefinition.find? ⟨"f()"⟩ = some ((definedIn ⟨"/a.cpp"⟩ "f").toCallable ⟨none⟩) ∧
      after.find? ⟨"f()"⟩ = some ((definedIn ⟨"/b.cpp"⟩ "f").toCallable ⟨none⟩) ∧
      row? after.nodes ⟨"f()"⟩ ≠ row? firstDefinition.nodes ⟨"f()"⟩ ∧
      ⟨"f()"⟩ ∉ report.updated) ∧
    ∃ after report, firstDefinition.ingest twoDefinitions.toolchain ⟨"/a.cpp"⟩ ["-DCALL"] true =
        .ok (after, report) ∧
      after.find? ⟨"f()"⟩ = firstDefinition.find? ⟨"f()"⟩ ∧
      row? after.nodes ⟨"f()"⟩ ≠ row? firstDefinition.nodes ⟨"f()"⟩ ∧
      ⟨"f()"⟩ ∉ report.updated := by
  refine ⟨⟨_, _, rfl⟩, ⟨_, _, rfl, ?_, ?_, ?_, ?_⟩, _, _, rfl, ?_, ?_, ?_⟩ <;> decide

end Example

end CallGraph
