import CallGraph.Proofs.Index.Definition

/-!
# The order of ingests

Main result: `run_perm`. Files may be ingested in any order if every unit reports both ends of its
calls, nothing of it is left out, and no two units define the same callable.

The run is followed callable by callable (`Collected`). A unit that defines a callable fixes its
row, whether declarations come before or after. Without such a unit the callable has no callees,
and only its record depends on the order.
-/
namespace CallGraph

/-- The callables that a unit observes, in the order of its facts. -/
def reportedIds (facts : List Fact) : List CallableId :=
  facts.filterMap fun
    | .callable symbol => some symbol.id
    | .call _ _ => none

/-- A unit that reports both ends of its calls before them, and of which nothing is left out. -/
structure SelfContained (excluded : List Path) (facts : List Fact) : Prop where
  ordered : CallablesFirst facts
  unfiltered : skippedCount excluded facts = 0
  ends_reported : ∀ caller callee, Fact.call caller callee ∈ facts →
    caller ∈ reportedIds facts ∧ callee ∈ reportedIds facts

def Defines (facts : List Fact) (id : CallableId) : Prop :=
  ∃ symbol, Fact.callable symbol ∈ facts ∧ symbol.id = id ∧ symbol.isDefinition = true

def recordsOf (root : DisplayRoot) (facts : List Fact) (id : CallableId) : List Callable :=
  (observations root [] facts).filter (·.id = id)

/-- What a unit by itself says of a callable. -/
def unitRow (root : DisplayRoot) (facts : List Fact) (id : CallableId) : Option GraphRow :=
  mergedRow none (recordsOf root facts id) (reportedCallees facts id)

variable {root : DisplayRoot} {excluded : List Path} {facts : List Fact} {id : CallableId}

theorem mem_observations_iff {record : Callable} :
    record ∈ observations root [] facts ↔
      ∃ symbol, Fact.callable symbol ∈ facts ∧ symbol.toCallable root = record := by
  rw [observations, List.mem_filterMap]
  constructor
  · rintro ⟨fact, member, made⟩
    cases fact with
    | callable symbol => exact ⟨symbol, member, by simpa using made⟩
    | call caller callee => cases made
  · rintro ⟨symbol, member, rfl⟩
    exact ⟨_, member, by simp⟩

theorem observations_of_unfiltered (unfiltered : skippedCount excluded facts = 0) :
    observations root excluded facts = observations root [] facts := by
  rw [skippedCount, List.countP_eq_zero] at unfiltered
  apply List.filterMap_congr
  intro fact member
  cases fact with
  | callable symbol =>
    have kept := unfiltered _ member
    simp only [Bool.not_eq_true] at kept
    simp [kept]
  | call caller callee => rfl

theorem map_id_observations (root : DisplayRoot) (facts : List Fact) :
    (observations root [] facts).map Callable.id = reportedIds facts := by
  rw [observations, reportedIds, List.map_filterMap]
  apply List.filterMap_congr
  intro fact _
  cases fact with
  | callable symbol => simp
  | call caller callee => rfl

theorem recordsOf_ne_nil_iff : recordsOf root facts id ≠ [] ↔ id ∈ reportedIds facts := by
  rw [← map_id_observations root, recordsOf, ne_eq, List.filter_eq_nil_iff, List.mem_map]
  simp

theorem mem_reportedIds {symbol : SymbolFact} (member : Fact.callable symbol ∈ facts) :
    symbol.id ∈ reportedIds facts :=
  List.mem_filterMap.mpr ⟨_, member, rfl⟩

theorem Defines.reported (defines : Defines facts id) : id ∈ reportedIds facts := by
  obtain ⟨symbol, member, rfl, _⟩ := defines
  exact mem_reportedIds member

theorem call_of_mem_reportedCallees {callee : CallableId}
    (called : callee ∈ reportedCallees facts id) : Fact.call id callee ∈ facts := by
  obtain ⟨fact, member, named⟩ := List.mem_filterMap.mp called
  cases fact with
  | callable symbol => cases named
  | call caller other =>
    dsimp only at named
    split at named
    · rename_i here
      obtain rfl := Option.some.inj named
      exact here ▸ member
    · cases named

theorem defines_iff (root : DisplayRoot) :
    Defines facts id ↔
      ((recordsOf root facts id).filter Callable.isDefinition).getLast? ≠ none := by
  rw [ne_eq, List.getLast?_eq_none_iff, List.filter_eq_nil_iff]
  simp only [recordsOf, List.mem_filter, mem_observations_iff, decide_eq_true_eq, not_forall,
    Bool.not_eq_true, Bool.not_eq_false]
  constructor
  · rintro ⟨symbol, member, same, defined⟩
    exact ⟨_, ⟨⟨symbol, member, rfl⟩, same⟩, defined⟩
  · rintro ⟨_, ⟨⟨symbol, member, rfl⟩, same⟩, defined⟩
    exact ⟨symbol, member, same, defined⟩

theorem lastDefinition_eq_none (root : DisplayRoot) (undefined : ¬Defines facts id) :
    ((recordsOf root facts id).filter Callable.isDefinition).getLast? = none :=
  not_ne_iff.mp (mt (defines_iff root).mpr undefined)

theorem mergedRow_of_defines {known? : Option GraphRow} (unfinished : Unfinished known?)
    (defines : Defines facts id) :
    mergedRow known? (recordsOf root facts id) (reportedCallees facts id) =
      unitRow root facts id := by
  obtain ⟨definition, last⟩ := Option.ne_none_iff_exists'.mp ((defines_iff root).mp defines)
  rw [unitRow, mergedRow_of_definition unfinished last,
    mergedRow_of_definition unfinished_none last]

/-- A self-contained unit knows the callees of its calls, whatever was known before. -/
theorem row?_mergeFacts {index : Index} (wellFormed : WellFormed index.nodes)
    (contained : SelfContained excluded facts) (id : CallableId) :
    row? (index.mergeFacts excluded facts).nodes id =
      mergedRow (row? index.nodes id) (recordsOf index.root facts id)
        (reportedCallees facts id) := by
  have merges := mergesById_mergeFacts wellFormed excluded contained.ordered
  -- Every callee is observed in the unit itself, so none of the calls is dropped.
  have known : ∀ callee ∈ reportedCallees facts id, callee ∈ reportedIds facts :=
    fun callee called =>
      (contained.ends_reported id callee (call_of_mem_reportedCallees called)).2
  rw [merges.row, observations_of_unfiltered contained.unfiltered, map_id_observations, recordsOf]
  congr 1
  exact List.filter_eq_self.mpr fun callee called => by simp [known callee called]

/-! ### One callable through a run -/

/-- What is known of a callable after some units. -/
structure Collected (root : DisplayRoot) (reported : List Fact → Prop) (id : CallableId)
    (known? : Option GraphRow) : Prop where
  known : known?.isSome = true ↔ ∃ facts, reported facts ∧ id ∈ reportedIds facts
  declared : (∀ facts, reported facts → ¬Defines facts id) → ∀ row, known? = some row →
    row.callable.isDefinition = false ∧ row.callees = []
  defined : ∀ facts, reported facts → Defines facts id → known? = unitRow root facts id

namespace Collected

variable {reported other : List Fact → Prop} {known? found? : Option GraphRow}

theorem congr (collected : Collected root reported id known?)
    (same : ∀ facts, reported facts ↔ other facts) : Collected root other id known? := by
  have equal : reported = other := funext fun facts => propext (same facts)
  exact equal ▸ collected

theorem nothing : Collected root (fun _ => False) id none where
  known := by simp
  declared := by simp
  defined := by simp

theorem defines_of_finished (collected : Collected root reported id known?)
    (finished : ¬Unfinished known?) : ∃ facts, reported facts ∧ Defines facts id := by
  by_contra undefined
  refine finished fun row found => (collected.declared ?_ row found).2
  exact fun facts listed defines => undefined ⟨facts, listed, defines⟩

/-- One more unit, which defines the callable only if no other one does. -/
theorem merge (collected : Collected root reported id known?)
    (only : ∀ other, reported other → Defines other id → Defines facts id → other = facts) :
    Collected root (fun other => reported other ∨ other = facts) id
      (mergedRow known? (recordsOf root facts id) (reportedCallees facts id)) where
  known := by
    rw [isSome_mergedRow, collected.known, recordsOf_ne_nil_iff]
    simp only [or_and_right, exists_or, exists_eq_left]
  declared := by
    intro undefined row found
    have last := lastDefinition_eq_none root (undefined facts (.inr rfl))
    rw [mergedRow_of_undefining last, Option.or_eq_some_iff] at found
    rcases found with old | ⟨_, new⟩
    · exact collected.declared (fun other listed => undefined other (.inl listed)) row old
    · -- The first of some records none of which is a definition.
      obtain ⟨record, first, rfl⟩ := Option.map_eq_some_iff.mp new
      rw [List.getLast?_eq_none_iff, List.filter_eq_nil_iff] at last
      exact ⟨by simpa using last record (List.mem_of_head? first), rfl⟩
  defined := by
    intro source listed defines
    by_cases here : Defines facts id
    · obtain rfl : source = facts := by
        rcases listed with old | rfl
        · exact only source old defines here
        · rfl
      by_cases unfinished : Unfinished known?
      · exact mergedRow_of_defines unfinished here
      · -- What has finished the callable is the same unit, ingested before.
        obtain ⟨earlier, old, definedEarlier⟩ := collected.defines_of_finished unfinished
        obtain rfl := only earlier old definedEarlier here
        rw [mergedRow_of_finished unfinished]
        exact collected.defined earlier old here
    · -- A unit that only declares the callable leaves its definition alone.
      have old : reported source := listed.resolve_right fun same => here (same ▸ defines)
      have known := collected.known.mpr ⟨source, old, defines.reported⟩
      rw [mergedRow_of_undefining (lastDefinition_eq_none root here), Option.or_of_isSome known]
      exact collected.defined source old defines

/-- What is known after the same units agrees, up to the record of a declaration. -/
theorem agree (first : Collected root reported id known?)
    (second : Collected root reported id found?) :
    known? = found? ∨ ∃ row other, known? = some row ∧ found? = some other ∧
      row.callable.isDefinition = false ∧ other.callable.isDefinition = false ∧
      row.callees = other.callees := by
  by_cases defined : ∃ facts, reported facts ∧ Defines facts id
  · obtain ⟨facts, listed, defines⟩ := defined
    left
    rw [first.defined facts listed defines, second.defined facts listed defines]
  · have undefined : ∀ facts, reported facts → ¬Defines facts id :=
      fun facts listed defines => defined ⟨facts, listed, defines⟩
    have same : known?.isSome = found?.isSome :=
      Bool.eq_iff_iff.mpr (first.known.trans second.known.symm)
    cases known? with
    | none =>
      cases found? with
      | none => exact .inl rfl
      | some row => cases same
    | some row =>
      cases found? with
      | none => cases same
      | some other =>
        obtain ⟨declared, empty⟩ := first.declared undefined row rfl
        obtain ⟨otherDeclared, otherEmpty⟩ := second.declared undefined other rfl
        exact .inr ⟨row, other, rfl, rfl, declared, otherDeclared, empty.trans otherEmpty.symm⟩

end Collected

/-! ### Runs -/

/-- The facts of the units that some requests report. -/
def Reported (requests : List IngestRequest) (facts : List Fact) : Prop :=
  ∃ request ∈ requests, ∃ unit, request.Reports unit ∧ unit.facts = facts

/-- Each unit of some requests is self-contained. -/
def AllContained (requests : List IngestRequest) : Prop :=
  ∀ request ∈ requests, ∀ unit, request.Reports unit →
    SelfContained request.excluded unit.facts

/-- No two different units define the same callable. -/
def OneDefinition (requests : List IngestRequest) : Prop :=
  ∀ id first second, Reported requests first → Reported requests second →
    Defines first id → Defines second id → first = second

theorem reported_append_singleton {requests : List IngestRequest} {request : IngestRequest} :
    Reported (requests ++ [request]) facts ↔
      Reported requests facts ∨ ∃ unit, request.Reports unit ∧ unit.facts = facts := by
  simp only [Reported, List.mem_append, List.mem_singleton, or_and_right, exists_or,
    exists_eq_left]

theorem IngestRequest.Reports.unique {request : IngestRequest} {unit other : UnitFacts}
    (first : request.Reports unit) (second : request.Reports other) : unit = other := by
  obtain ⟨path, found, analyzed⟩ := first
  obtain ⟨place, foundAgain, analyzedAgain⟩ := second
  obtain rfl := Option.some.inj (found.symm.trans foundAgain)
  exact Except.ok.inj (analyzed.symm.trans analyzedAgain)

namespace Index

theorem nodes_perform_of_reports {index : Index} {request : IngestRequest} {unit : UnitFacts}
    (reports : request.Reports unit) :
    (index.perform request).nodes = (index.mergeFacts request.excluded unit.facts).nodes := by
  obtain ⟨path, found, analyzed⟩ := reports
  simp only [perform, ingestExcluding, found, analyzed]

theorem nodes_perform_of_unreported {index : Index} {request : IngestRequest}
    (unreported : ¬∃ unit, request.Reports unit) : (index.perform request).nodes = index.nodes := by
  rcases index.perform_cases request with same | ⟨unit, reports, _⟩
  · rw [same]
  · exact absurd ⟨unit, reports⟩ unreported

theorem collected_run (root : DisplayRoot) {requests : List IngestRequest}
    (contained : AllContained requests) (oneDefinition : OneDefinition requests)
    (id : CallableId) :
    Collected root (Reported requests) id (row? (run root requests).nodes id) := by
  -- The last request comes to an index that the requests before it have led to.
  induction requests using List.reverseRecOn with
  | nil =>
    refine Collected.nothing.congr fun facts => ?_
    simp [Reported]
  | append_singleton requests request ih =>
    have listed : ∀ facts, Reported requests facts → Reported (requests ++ [request]) facts :=
      fun facts old => reported_append_singleton.mpr (.inl old)
    have before := ih (fun other member => contained other (List.mem_append_left _ member))
      fun id first second atFirst atSecond =>
        oneDefinition id first second (listed first atFirst) (listed second atSecond)
    rw [run_append]
    by_cases reports : ∃ unit, request.Reports unit
    · obtain ⟨unit, reports⟩ := reports
      have selfContained := contained request (by simp) unit reports
      have last : Reported (requests ++ [request]) unit.facts :=
        reported_append_singleton.mpr (.inr ⟨unit, reports, rfl⟩)
      rw [nodes_perform_of_reports reports, row?_mergeFacts (wellFormed_run root requests)
        selfContained, root_run]
      refine (before.merge ?_).congr fun facts => ?_
      · exact fun other old => oneDefinition id other unit.facts (listed other old) last
      · rw [reported_append_singleton]
        refine or_congr_right ⟨fun same => ⟨unit, reports, same.symm⟩, ?_⟩
        rintro ⟨other, reportsOther, rfl⟩
        rw [reportsOther.unique reports]
    · rw [nodes_perform_of_unreported reports]
      refine before.congr fun facts => ?_
      rw [reported_append_singleton]
      exact (or_iff_left fun ⟨unit, found, _⟩ => reports ⟨unit, found⟩).symm

/-- Files may be ingested in any order if each unit is self-contained and no two of them define the
same callable: the callables and which of them are definitions, the records of the definitions and
the callees of all callables with their order come out the same. -/
theorem run_perm (root : DisplayRoot) {requests others : List IngestRequest}
    (reordered : requests.Perm others) (contained : AllContained requests)
    (oneDefinition : OneDefinition requests) :
    (run root requests).ids.Perm (run root others).ids ∧ ∀ id,
      (run root requests).definition? id = (run root others).definition? id ∧
      ((run root requests).isDefined id = true →
        (run root requests).find? id = (run root others).find? id) ∧
      (run root requests).calleeIds id = (run root others).calleeIds id := by
  have same : ∀ facts, Reported others facts ↔ Reported requests facts := by
    intro facts
    simp only [Reported, reordered.mem_iff]
  have wellFormed := wellFormed_run root requests
  have wellFormedOther := wellFormed_run root others
  have containedOther : AllContained others :=
    fun request member => contained request (reordered.mem_iff.mpr member)
  have oneDefinitionOther : OneDefinition others := fun id first second atFirst atSecond =>
    oneDefinition id first second ((same first).mp atFirst) ((same second).mp atSecond)
  -- What has been collected depends on which units there were, not on their order.
  have agree := fun id => (collected_run root contained oneDefinition id).agree
    ((collected_run root containedOther oneDefinitionOther id).congr same)
  constructor
  · refine (List.perm_ext_iff_of_nodup wellFormed.keys_distinct
      wellFormedOther.keys_distinct).mpr fun id => ?_
    rw [← not_iff_not, ← row?_eq_none_iff, ← row?_eq_none_iff]
    rcases agree id with equal | ⟨row, other, found, foundOther, _⟩
    · rw [equal]
    · simp [found, foundOther]
  · intro id
    rw [isDefined_iff, definition?, definition?, find?_eq_row?, find?_eq_row?,
      calleeIds_eq_row? wellFormed, calleeIds_eq_row? wellFormedOther]
    rcases agree id with equal | ⟨row, other, found, foundOther, declared, otherDeclared, callees⟩
    · rw [equal]
      exact ⟨rfl, fun _ => rfl, rfl⟩
    · rw [found, foundOther]
      simp [DefinedRow, declared, otherDeclared, callees]

section Example

private def seenIn (file name : String) (isDefinition : Bool) : SymbolFact :=
  ⟨.function, [], name, name ++ "()", "void", isDefinition, ⟨"/" ++ file⟩, ⟨"/" ++ file⟩⟩

/-- The facts of a file that defines one function, declares another, and has the one call the
other. -/
private def callingFacts (file own other : String) : List Fact :=
  [.callable (seenIn file own true), .callable (seenIn file other false),
    .call (seenIn file own true).id (seenIn file other false).id]

private def mutualWorkspace : Workspace where
  files := ⟨.directory [("f.cpp", .file []), ("g.cpp", .file [])], [], .plain⟩
  analyze path _ :=
    .ok ⟨path, if path = ⟨"/f.cpp"⟩ then callingFacts "f.cpp" "f" "g"
      else callingFacts "g.cpp" "g" "f", []⟩

/-- Requests for two files with functions that call each other. -/
private def mutualRequests : List IngestRequest :=
  [⟨mutualWorkspace, [], ⟨"/f.cpp"⟩, []⟩, ⟨mutualWorkspace, [], ⟨"/g.cpp"⟩, []⟩]

private theorem reports_mutual {request : IngestRequest} {unit : UnitFacts}
    (member : request ∈ mutualRequests) (reports : request.Reports unit) :
    request.excluded = [] ∧ (unit.facts = callingFacts "f.cpp" "f" "g" ∨
      unit.facts = callingFacts "g.cpp" "g" "f") := by
  simp only [mutualRequests, List.mem_cons, List.not_mem_nil, or_false] at member
  obtain ⟨path, _, analyzed⟩ := reports
  rcases member with rfl | rfl <;>
  · obtain rfl := Except.ok.inj analyzed
    refine ⟨rfl, ?_⟩
    dsimp only
    split
    · exact .inl rfl
    · exact .inr rfl

private theorem selfContained_callingFacts (file own other : String) :
    SelfContained [] (callingFacts file own other) where
  ordered := ⟨[seenIn file own true, seenIn file other false],
    [((seenIn file own true).id, (seenIn file other false).id)], rfl⟩
  unfiltered := rfl
  ends_reported := by simp [callingFacts, reportedIds]

private theorem defines_callingFacts {file own other : String} {id : CallableId}
    (defines : Defines (callingFacts file own other) id) : id = ⟨own ++ "()"⟩ := by
  obtain ⟨symbol, member, rfl, defined⟩ := defines
  simp only [callingFacts, List.mem_cons, Fact.callable.injEq, reduceCtorEq, List.not_mem_nil,
    or_false] at member
  rcases member with rfl | rfl
  · rfl
  · cases defined

/-- Two functions that call each other, each defined in a file of its own. -/
theorem run_mutual_swapped :
    mutualRequests.Perm mutualRequests.reverse ∧ AllContained mutualRequests ∧
      OneDefinition mutualRequests ∧ (run ⟨none⟩ mutualRequests).ids = [⟨"f()"⟩, ⟨"g()"⟩] ∧
      (run ⟨none⟩ mutualRequests.reverse).ids = [⟨"g()"⟩, ⟨"f()"⟩] ∧
      (run ⟨none⟩ mutualRequests.reverse).find? ⟨"f()"⟩ =
        (run ⟨none⟩ mutualRequests).find? ⟨"f()"⟩ ∧
      (run ⟨none⟩ mutualRequests.reverse).calleeIds ⟨"f()"⟩ = [⟨"g()"⟩] := by
  have swapped : mutualRequests.Perm mutualRequests.reverse := (List.reverse_perm _).symm
  have contained : AllContained mutualRequests := by
    intro request member unit reports
    obtain ⟨excluded, facts | facts⟩ := reports_mutual member reports
    · rw [excluded, facts]
      exact selfContained_callingFacts _ _ _
    · rw [excluded, facts]
      exact selfContained_callingFacts _ _ _
  have oneDefinition : OneDefinition mutualRequests := by
    rintro id _ _ ⟨first, atFirst, unit, reports, rfl⟩ ⟨second, atSecond, other, reportsOther, rfl⟩
      definesFirst definesSecond
    rcases (reports_mutual atFirst reports).2 with facts | facts <;>
      rcases (reports_mutual atSecond reportsOther).2 with factsOther | factsOther <;>
      rw [facts] at definesFirst ⊢ <;> rw [factsOther] at definesSecond ⊢
    · cases (defines_callingFacts definesFirst).symm.trans (defines_callingFacts definesSecond)
    · cases (defines_callingFacts definesFirst).symm.trans (defines_callingFacts definesSecond)
  obtain ⟨_, same⟩ := run_perm ⟨none⟩ swapped contained oneDefinition
  obtain ⟨_, records, callees⟩ := same ⟨"f()"⟩
  refine ⟨swapped, contained, oneDefinition, by decide +kernel, by decide +kernel,
    (records (by decide +kernel)).symm, ?_⟩
  rw [← callees]
  decide +kernel

end Example

end Index

end CallGraph
