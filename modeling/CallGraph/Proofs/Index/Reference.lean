import CallGraph.Proofs.Index.Row
import CallGraph.Proofs.Index.Run

/-!
# The merge of a unit, callable by callable

Main result: `ingest_eq_merge_by_id`. If a unit reports its callables before its calls, ingesting it
acts on each callable independently, as `mergedRow` says.

The proof follows the two phases of such a unit. In the first the row of a callable is a fold over
its own observations alone (`Observes`), in the second it only gains callees (`Calls`). Each phase
has a step lemma and a run lemma by induction on the facts.
-/
namespace CallGraph

/-! ### The reference -/

/-- The records of the callables that a unit reports outside the excluded directories. -/
def observations (root : DisplayRoot) (excluded : List Path) (facts : List Fact) : List Callable :=
  facts.filterMap fun
    | .callable symbol =>
      if excluded.any symbol.sourceFile.startsWith then none else some (symbol.toCallable root)
    | .call _ _ => none

/-- How many callables a unit reports inside the excluded directories. -/
def skippedCount (excluded : List Path) (facts : List Fact) : Nat :=
  facts.countP fun
    | .callable symbol => excluded.any symbol.sourceFile.startsWith
    | .call _ _ => false

/-- The callees in the calls of a callable that a unit reports. -/
def reportedCallees (facts : List Fact) (id : CallableId) : List CallableId :=
  facts.filterMap fun
    | .callable _ => none
    | .call caller callee => if caller = id then some callee else none

/-- All callables are reported before all calls. -/
def CallablesFirst (facts : List Fact) : Prop :=
  ∃ (symbols : List SymbolFact) (calls : List (CallableId × CallableId)),
    facts = symbols.map Fact.callable ++ calls.map fun call => Fact.call call.1 call.2

/-- What a unit makes of one callable, from what was known of it, from the records that the unit
has of it, and from the known callables that the unit reports it to call. -/
def mergedRow (known? : Option GraphRow) (records : List Callable) (callees : List CallableId) :
    Option GraphRow :=
  if known?.any fun row => row.callees ≠ [] then known?
  else
    match (records.filter Callable.isDefinition).getLast? with
    | some definition => some ⟨definition, callees.eraseDups⟩
    | none => known?.or (records.head?.map fun declaration => ⟨declaration, []⟩)

/-- No callees are known. -/
def Unfinished (known? : Option GraphRow) : Prop := ∀ row, known? = some row → row.callees = []

section MergedRow

variable {known? : Option GraphRow} {records : List Callable} {callees : List CallableId}

theorem any_callees_iff : (known?.any fun row => row.callees ≠ []) = true ↔ ¬Unfinished known? := by
  cases known? with
  | none => simp [Unfinished]
  | some row => simp [Unfinished]

theorem mergedRow_of_finished (finished : ¬Unfinished known?) :
    mergedRow known? records callees = known? := by
  rw [mergedRow, if_pos (any_callees_iff.mpr finished)]

theorem mergedRow_of_definition (unfinished : Unfinished known?) {definition : Callable}
    (last : (records.filter Callable.isDefinition).getLast? = some definition) :
    mergedRow known? records callees = some ⟨definition, callees.eraseDups⟩ := by
  rw [mergedRow, if_neg fun finished => any_callees_iff.mp finished unfinished, last]

theorem mergedRow_of_declarations (unfinished : Unfinished known?)
    (none : (records.filter Callable.isDefinition).getLast? = none) :
    mergedRow known? records callees =
      known?.or (records.head?.map fun declaration => ⟨declaration, []⟩) := by
  rw [mergedRow, if_neg fun finished => any_callees_iff.mp finished unfinished, none]

theorem unfinished_none : Unfinished none := by simp [Unfinished]

theorem isSome_of_finished (finished : ¬Unfinished known?) : known?.isSome = true := by
  cases known? with
  | none => exact absurd unfinished_none finished
  | some row => rfl

/-- Records of a unit that has no definition of the callable matter only if nothing is known. -/
theorem mergedRow_of_undefining (none : (records.filter Callable.isDefinition).getLast? = none) :
    mergedRow known? records callees =
      known?.or (records.head?.map fun declaration => ⟨declaration, []⟩) := by
  by_cases unfinished : Unfinished known?
  · exact mergedRow_of_declarations unfinished none
  · rw [mergedRow_of_finished unfinished, Option.or_of_isSome (isSome_of_finished unfinished)]

theorem isSome_mergedRow :
    (mergedRow known? records callees).isSome = true ↔ known?.isSome = true ∨ records ≠ [] := by
  cases last : (records.filter Callable.isDefinition).getLast? with
  | none =>
    rw [mergedRow_of_undefining last]
    cases records <;> simp
  | some definition =>
    have listed := List.mem_filter.mp (List.mem_of_getLast? last)
    refine iff_of_true ?_ (.inr (List.ne_nil_of_mem listed.1))
    by_cases unfinished : Unfinished known?
    · rw [mergedRow_of_definition unfinished last]
      rfl
    · rw [mergedRow_of_finished unfinished]
      exact isSome_of_finished unfinished

end MergedRow

/-! ### Observing one callable -/

theorem observe_of_finished {known? : Option GraphRow} (finished : ¬Unfinished known?)
    (record : Callable) : Merge.observe known? record = known? := by
  cases known? with
  | none => simp [Unfinished] at finished
  | some row =>
    have calls : row.callees ≠ [] := by simpa [Unfinished] using finished
    simp [Merge.observe, calls]

theorem observe_of_definition {known? : Option GraphRow} (unfinished : Unfinished known?)
    {record : Callable} (defined : record.isDefinition = true) :
    Merge.observe known? record = some ⟨record, []⟩ := by
  cases known? with
  | none => rfl
  | some row => simp [Merge.observe, defined, unfinished row rfl]

theorem observe_of_declaration {known? : Option GraphRow} {record : Callable}
    (declared : record.isDefinition = false) :
    Merge.observe known? record = known?.or (some ⟨record, []⟩) := by
  cases known? with
  | none => rfl
  | some row => simp [Merge.observe, declared]

theorem unfinished_observe_iff {known? : Option GraphRow} {record : Callable} :
    Unfinished (Merge.observe known? record) ↔ Unfinished known? := by
  by_cases unfinished : Unfinished known?
  · -- An observation leaves a row alone or puts one without callees in its place.
    refine iff_of_true ?_ unfinished
    intro row seen
    cases known? with
    | none =>
      obtain rfl := Option.some.inj seen
      rfl
    | some old =>
      rw [Merge.observe] at seen
      split at seen
      · obtain rfl := Option.some.inj seen
        rfl
      · exact unfinished row seen
  · rw [observe_of_finished unfinished]

theorem unfinished_foldl_observe_iff {known? : Option GraphRow} {records : List Callable} :
    Unfinished (records.foldl Merge.observe known?) ↔ Unfinished known? := by
  induction records generalizing known? with
  | nil => rfl
  | cons record records ih => rw [List.foldl_cons, ih, unfinished_observe_iff]

/-- Observing the records of one callable one after the other: the last definition counts, or else
the first declaration. -/
theorem foldl_observe (known? : Option GraphRow) (records : List Callable) :
    records.foldl Merge.observe known? = mergedRow known? records [] := by
  induction records generalizing known? with
  | nil =>
    by_cases unfinished : Unfinished known?
    · rw [List.foldl_nil, mergedRow_of_declarations unfinished rfl]
      simp
    · rw [mergedRow_of_finished unfinished, List.foldl_nil]
  | cons record records ih =>
    rw [List.foldl_cons, ih]
    by_cases unfinished : Unfinished known?
    · have still : Unfinished (Merge.observe known? record) :=
        unfinished_observe_iff.mpr unfinished
      by_cases defined : record.isDefinition = true
      · -- A definition counts until the next one comes.
        have filtered := List.filter_cons_of_pos (l := records) defined
        cases later : (records.filter Callable.isDefinition).getLast? with
        | none =>
          have last : ((record :: records).filter Callable.isDefinition).getLast? =
              some record := by
            rw [filtered, List.getLast?_cons, later, Option.getD_none]
          rw [mergedRow_of_declarations still later, mergedRow_of_definition unfinished last,
            observe_of_definition unfinished defined]
          rfl
        | some definition =>
          have last : ((record :: records).filter Callable.isDefinition).getLast? =
              some definition := by
            rw [filtered, List.getLast?_cons, later, Option.getD_some]
          rw [mergedRow_of_definition still later, mergedRow_of_definition unfinished last]
      · have declared : record.isDefinition = false := by simpa using defined
        have filtered := List.filter_cons_of_neg (l := records) defined
        cases later : (records.filter Callable.isDefinition).getLast? with
        | none =>
          rw [mergedRow_of_declarations still later,
            mergedRow_of_declarations unfinished (filtered ▸ later),
            observe_of_declaration declared]
          cases known? <;> rfl
        | some definition =>
          rw [mergedRow_of_definition still later,
            mergedRow_of_definition unfinished (filtered ▸ later)]
    · rw [observe_of_finished unfinished, mergedRow_of_finished unfinished,
        mergedRow_of_finished unfinished]

/-! ### The phase of callables -/

/-- The observation of callables leads from one state of a merge to another. -/
structure Observes (merge after : Merge) (records : List Callable) : Prop where
  keys : after.nodes.map GraphNode.key =
    (records.map Callable.id).foldl pushNew (merge.nodes.map GraphNode.key)
  row : ∀ id, row? after.nodes id =
    (records.filter (·.id = id)).foldl Merge.observe (row? merge.nodes id)
  opens : ∀ id, after.opens id = true ↔ merge.opens id = true ∨
    (∃ record ∈ records, record.id = id ∧ record.isDefinition = true) ∧
      Unfinished (row? merge.nodes id)
  edges : after.edgesAdded = merge.edgesAdded ∧ edgeCount after.nodes = edgeCount merge.nodes

namespace Observes

variable {merge mid after : Merge}

theorem of_same (nodes : after.nodes = merge.nodes) (opened : after.opened = merge.opened)
    (edges : after.edgesAdded = merge.edgesAdded) : Observes merge after [] where
  keys := by rw [nodes]; rfl
  row id := by rw [nodes]; rfl
  opens id := by simp [Merge.opens, nodes, opened]
  edges := ⟨edges, by rw [nodes]⟩

theorem trans {first second : List Callable} (left : Observes merge mid first)
    (right : Observes mid after second) : Observes merge after (first ++ second) where
  keys := by rw [right.keys, left.keys, List.map_append, List.foldl_append]
  row id := by rw [right.row, left.row, List.filter_append, List.foldl_append]
  opens id := by
    rw [right.opens, left.opens, left.row, unfinished_foldl_observe_iff, or_assoc, ← or_and_right]
    simp only [List.mem_append, or_and_right, exists_or]
  edges := ⟨right.edges.1.trans left.edges.1, right.edges.2.trans left.edges.2⟩

theorem addCallable (wellFormed : WellFormed merge.nodes)
    (inBounds : ∀ position ∈ merge.opened, position < merge.nodes.length) (callable : Callable) :
    Observes merge (merge.addCallable callable) [callable] where
  keys := merge.keys_addCallable callable
  row id := by
    rw [Merge.row?_addCallable wellFormed]
    by_cases here : id = callable.id
    · simp [here]
    · simp [here, Ne.symm here]
  opens id := by
    have one : (∃ record ∈ [callable], record.id = id ∧ record.isDefinition = true) ↔
        callable.id = id ∧ callable.isDefinition = true := by simp
    rw [Merge.opens_addCallable wellFormed inBounds, one, and_assoc]
    exact or_congr_right (and_congr_left fun _ => eq_comm)
  edges := by
    have change := merge.addCallable_change callable
    generalize merge.addCallable callable = after at change ⊢
    cases change with
    | discover => simp [Merge.discover]
    | redefine => simp [Merge.redefine]
    | keep => exact ⟨rfl, rfl⟩

end Observes

section Phases

variable {root : DisplayRoot} {excluded : List Path} {facts : List Fact}
  {before : List GraphNode}

theorem observes_addFact {merge : Merge} (merged : MergedFrom root excluded facts before merge)
    (symbol : SymbolFact) :
    Observes merge (merge.addFact root excluded (.callable symbol))
        (observations root excluded [.callable symbol]) ∧
      (merge.addFact root excluded (.callable symbol)).filtered =
        merge.filtered + skippedCount excluded [.callable symbol] := by
  rw [Merge.addFact]
  by_cases system : excluded.any symbol.sourceFile.startsWith = true
  · have none : observations root excluded [.callable symbol] = [] := by
      simp only [observations, List.filterMap_cons, system, if_true, List.filterMap_nil]
    have one : skippedCount excluded [.callable symbol] = 1 := by
      simp only [skippedCount, List.countP_cons, system, if_true, List.countP_nil]
    rw [if_pos system, none, one]
    exact ⟨.of_same rfl rfl rfl, rfl⟩
  · have one : observations root excluded [.callable symbol] = [symbol.toCallable root] := by
      simp only [observations, List.filterMap_cons, system, Bool.false_eq_true, if_false,
        List.filterMap_nil]
    have none : skippedCount excluded [.callable symbol] = 0 := by
      simp only [skippedCount, List.countP_cons, system, Bool.false_eq_true, if_false,
        List.countP_nil]
    rw [if_neg system, one, none]
    refine ⟨.addCallable merged.wellFormed merged.opened_known _, ?_⟩
    have change := merge.addCallable_change (symbol.toCallable root)
    generalize merge.addCallable (symbol.toCallable root) = after at change ⊢
    cases change <;> rfl

theorem observes_foldl (symbols : List SymbolFact) {merge : Merge}
    (merged : MergedFrom root excluded facts before merge)
    (reported : ∀ symbol ∈ symbols, Fact.callable symbol ∈ facts) :
    MergedFrom root excluded facts before
        ((symbols.map Fact.callable).foldl (Merge.addFact root excluded) merge) ∧
      Observes merge ((symbols.map Fact.callable).foldl (Merge.addFact root excluded) merge)
        (observations root excluded (symbols.map .callable)) ∧
      ((symbols.map Fact.callable).foldl (Merge.addFact root excluded) merge).filtered =
        merge.filtered + skippedCount excluded (symbols.map .callable) := by
  induction symbols generalizing merge with
  | nil => exact ⟨merged, .of_same rfl rfl rfl, rfl⟩
  | cons symbol symbols ih =>
    -- Each step needs a well-formed graph, so the invariant of the merge runs along.
    have next := merged.step (reported symbol (by simp))
    obtain ⟨step, stepFiltered⟩ := observes_addFact merged symbol
    obtain ⟨last, run, runFiltered⟩ :=
      ih next fun other member => reported other (List.mem_cons_of_mem _ member)
    have split : (symbol :: symbols).map Fact.callable =
        [Fact.callable symbol] ++ symbols.map Fact.callable := rfl
    refine ⟨last, ?_, ?_⟩
    · rw [split, observations, List.filterMap_append]
      exact step.trans run
    · rw [split, skippedCount, List.countP_append, ← skippedCount, ← skippedCount, ← Nat.add_assoc,
        ← stepFiltered]
      exact runFiltered

end Phases

/-! ### The phase of calls -/

/-- Calls lead from one state of a merge to another. -/
structure Calls (merge after : Merge) (facts : List Fact) : Prop where
  keys : after.nodes.map GraphNode.key = merge.nodes.map GraphNode.key
  opens : ∀ id, after.opens id = merge.opens id
  row : ∀ id, row? after.nodes id =
    if merge.opens id = true then
      (row? merge.nodes id).map fun row =>
        ⟨row.callable, ((reportedCallees facts id).filter
          (· ∈ merge.nodes.map GraphNode.key)).foldl pushNew row.callees⟩
    else row? merge.nodes id
  edges : edgeCount after.nodes + merge.edgesAdded = edgeCount merge.nodes + after.edgesAdded
  filtered : after.filtered = merge.filtered

namespace Calls

variable {merge mid after : Merge}

theorem refl (merge : Merge) : Calls merge merge [] where
  keys := rfl
  opens _ := rfl
  row id := by simp [reportedCallees]
  edges := rfl
  filtered := rfl

theorem trans {first second : List Fact} (left : Calls merge mid first)
    (right : Calls mid after second) : Calls merge after (first ++ second) where
  keys := right.keys.trans left.keys
  opens id := (right.opens id).trans (left.opens id)
  row id := by
    rw [right.row, left.row, left.opens, left.keys]
    by_cases opened : merge.opens id = true
    · simp only [opened, if_true, Option.map_map, Function.comp_def, reportedCallees,
        List.filterMap_append, List.filter_append, List.foldl_append]
    · rw [if_neg opened, if_neg opened, if_neg opened]
  edges := by
    have first := left.edges
    have second := right.edges
    omega
  filtered := right.filtered.trans left.filtered

theorem addCall (wellFormed : WellFormed merge.nodes) {caller callee : CallableId}
    (later : WellFormed (merge.addCall caller callee).nodes) :
    Calls merge (merge.addCall caller callee) [.call caller callee] where
  keys := merge.keys_addCall caller callee
  opens := merge.opens_addCall caller callee
  row id := by
    rw [Merge.row?_addCall wellFormed later]
    by_cases opened : merge.opens id = true
    · rw [if_pos opened]
      by_cases here : caller = id
      · subst here
        have reported : reportedCallees [.call caller callee] caller = [callee] := by
          simp [reportedCallees]
        rw [reported]
        generalize merge.nodes.map GraphNode.key = keys
        by_cases known : callee ∈ keys
        · simp [opened, known]
        · simp [known]
      · have unreported : reportedCallees [.call caller callee] id = [] := by
          simp [reportedCallees, here]
        rw [if_neg fun counts => here counts.1.symm, unreported]
        simp
    · rw [if_neg opened, if_neg]
      rintro ⟨rfl, counts, _⟩
      exact opened counts
  edges := by
    have change := merge.addCall_change caller callee
    generalize merge.addCall caller callee = after at change ⊢
    cases change with
    | link found =>
      simp only [Merge.link, edgeCount_withCallee found]
      omega
    | keep => rfl
    | unknown => rfl
  filtered := by
    have change := merge.addCall_change caller callee
    generalize merge.addCall caller callee = after at change ⊢
    cases change <;> rfl

end Calls

theorem calls_foldl {root : DisplayRoot} {excluded : List Path} {facts : List Fact}
    {before : List GraphNode} (calls : List (CallableId × CallableId)) {merge : Merge}
    (merged : MergedFrom root excluded facts before merge)
    (reported : ∀ call ∈ calls, Fact.call call.1 call.2 ∈ facts) :
    Calls merge
      ((calls.map fun call => Fact.call call.1 call.2).foldl (Merge.addFact root excluded) merge)
      (calls.map fun call => Fact.call call.1 call.2) := by
  induction calls generalizing merge with
  | nil => exact .refl merge
  | cons call calls ih =>
    have next := merged.step (reported call (by simp))
    have step : Calls merge (merge.addFact root excluded (.call call.1 call.2))
        [.call call.1 call.2] := .addCall merged.wellFormed next.wellFormed
    exact step.trans (ih next fun other member => reported other (List.mem_cons_of_mem _ member))

/-! ### Both phases -/

section Split

variable (symbols : List SymbolFact) (calls : List (CallableId × CallableId))

theorem observations_of_callables_first (root : DisplayRoot) (excluded : List Path) :
    observations root excluded
        (symbols.map Fact.callable ++ calls.map fun call => Fact.call call.1 call.2) =
      observations root excluded (symbols.map Fact.callable) := by
  simp [observations, List.filterMap_append, List.filterMap_map]

theorem skippedCount_of_callables_first (excluded : List Path) :
    skippedCount excluded
        (symbols.map Fact.callable ++ calls.map fun call => Fact.call call.1 call.2) =
      skippedCount excluded (symbols.map Fact.callable) := by
  simp [skippedCount, List.countP_append, List.countP_map, Function.comp_def]

theorem reportedCallees_of_callables_first (id : CallableId) :
    reportedCallees
        (symbols.map Fact.callable ++ calls.map fun call => Fact.call call.1 call.2) id =
      reportedCallees (calls.map fun call => Fact.call call.1 call.2) id := by
  simp [reportedCallees, List.filterMap_append, List.filterMap_map]

end Split

/-- The calls of a callable that the unit opens count, and no others. -/
theorem mergedRow_eq_ite {known? : Option GraphRow} {records : List Callable}
    {callees : List CallableId} {opened : Prop} [Decidable opened]
    (opens : opened ↔ (∃ record ∈ records, record.isDefinition = true) ∧ Unfinished known?) :
    mergedRow known? records callees =
      if opened then (mergedRow known? records []).map fun row =>
        ⟨row.callable, callees.foldl pushNew row.callees⟩
      else mergedRow known? records [] := by
  by_cases unfinished : Unfinished known?
  · cases last : (records.filter Callable.isDefinition).getLast? with
    | none =>
      -- Without a definition nothing is opened, and reported calls do not count.
      have closed : ¬opened := by
        rw [opens]
        rintro ⟨⟨record, member, defined⟩, _⟩
        rw [List.getLast?_eq_none_iff, List.filter_eq_nil_iff] at last
        exact last record member defined
      rw [if_neg closed, mergedRow_of_declarations unfinished last,
        mergedRow_of_declarations unfinished last]
    | some definition =>
      have listed := List.mem_filter.mp (List.mem_of_getLast? last)
      rw [if_pos (opens.mpr ⟨⟨definition, listed⟩, unfinished⟩),
        mergedRow_of_definition unfinished last, mergedRow_of_definition unfinished last,
        Option.map_some, foldl_pushNew]
      simp
  · rw [if_neg fun opened => unfinished (opens.mp opened).2, mergedRow_of_finished unfinished,
      mergedRow_of_finished unfinished]

/-- A merge of facts acts on each callable as the reference says. -/
structure MergesById (index : Index) (excluded : List Path) (facts : List Fact)
    (merge : Merge) : Prop where
  ids : merge.nodes.map GraphNode.key = index.ids ++
    (((observations index.root excluded facts).map Callable.id).filter (· ∉ index.ids)).eraseDups
  row : ∀ id, row? merge.nodes id = mergedRow (row? index.nodes id)
    ((observations index.root excluded facts).filter (·.id = id))
    ((reportedCallees facts id).filter fun callee =>
      callee ∈ index.ids ∨ callee ∈ (observations index.root excluded facts).map Callable.id)
  edges : edgeCount merge.nodes = index.callCount + merge.edgesAdded
  filtered : merge.filtered = skippedCount excluded facts

theorem mergesById_mergeFacts {index : Index} (wellFormed : WellFormed index.nodes)
    (excluded : List Path) {facts : List Fact} (ordered : CallablesFirst facts) :
    MergesById index excluded facts (index.mergeFacts excluded facts) := by
  obtain ⟨symbols, calls, rfl⟩ := ordered
  have start : MergedFrom index.root excluded
      (symbols.map Fact.callable ++ calls.map fun call => Fact.call call.1 call.2)
      index.nodes (.start index.nodes) := .start wellFormed
  obtain ⟨middle, observes, filtered⟩ := observes_foldl symbols start fun symbol member =>
    List.mem_append_left _ (List.mem_map_of_mem member)
  have called := calls_foldl calls middle fun call member =>
    List.mem_append_right _ (List.mem_map_of_mem (f := fun call => Fact.call call.1 call.2) member)
  -- The run is cut where the callables end and the calls begin.
  rw [Index.mergeFacts, List.foldl_append]
  generalize (symbols.map Fact.callable).foldl (Merge.addFact index.root excluded)
    (.start index.nodes) = mid at *
  generalize (calls.map fun call => Fact.call call.1 call.2).foldl
    (Merge.addFact index.root excluded) mid = after at *
  have keys : mid.nodes.map GraphNode.key = index.ids ++
      (((observations index.root excluded (symbols.map Fact.callable)).map Callable.id).filter
        (· ∉ index.ids)).eraseDups := by
    rw [observes.keys, foldl_pushNew]
    rfl
  constructor
  · rw [called.keys, keys, observations_of_callables_first]
  · intro id
    rw [called.row, observes.row, foldl_observe, reportedCallees_of_callables_first,
      observations_of_callables_first]
    have known : ∀ callee, callee ∈ mid.nodes.map GraphNode.key ↔ callee ∈ index.ids ∨
        callee ∈ (observations index.root excluded (symbols.map Fact.callable)).map
          Callable.id := by
      intro callee
      rw [keys, List.mem_append, List.mem_eraseDups, List.mem_filter, decide_eq_true_eq]
      constructor
      · rintro (old | ⟨new, _⟩)
        · exact .inl old
        · exact .inr new
      · rintro (old | new)
        · exact .inl old
        · exact (Decidable.em (callee ∈ index.ids)).imp_right fun unknown => ⟨new, unknown⟩
    simp only [known]
    -- Both phases together are the reference, since only definitions open their callable.
    refine (mergedRow_eq_ite ?_).symm
    have own : (∃ record ∈ (observations index.root excluded (symbols.map Fact.callable)).filter
          (·.id = id), record.isDefinition = true) ↔
        ∃ record ∈ observations index.root excluded (symbols.map Fact.callable),
          record.id = id ∧ record.isDefinition = true := by
      simp [List.mem_filter, and_assoc]
    rw [observes.opens, own]
    exact or_iff_right (by simp [Merge.opens, Merge.start])
  · have balance := called.edges
    rw [observes.edges.1, observes.edges.2] at balance
    simpa [Merge.start, Index.callCount] using balance
  · rw [called.filtered, filtered, skippedCount_of_callables_first]
    simp [Merge.start]

/-- Ingesting a unit that reports its callables before its calls acts on each callable alone,
whatever directories are excluded. -/
theorem ingest_eq_merge_by_id {index : Index} (reachable : index.Reachable)
    {workspace : Workspace} {excluded : List Path} {file path : Path} {arguments : List String}
    {unit : UnitFacts} (found : workspace.files.canonical? file = some path)
    (analyzed : workspace.analyze path arguments = .ok unit)
    (ordered : CallablesFirst unit.facts) :
    ∃ after report,
      index.ingestExcluding workspace excluded file arguments = .ok (after, report) ∧
      let records := observations index.root excluded unit.facts
      (∀ id, row? after.nodes id = mergedRow (row? index.nodes id) (records.filter (·.id = id))
        ((reportedCallees unit.facts id).filter fun callee =>
          callee ∈ index.ids ∨ callee ∈ records.map Callable.id)) ∧
      after.ids =
        index.ids ++ ((records.map Callable.id).filter (· ∉ index.ids)).eraseDups ∧
      after.callCount = index.callCount + report.edgesAdded ∧
      report.filtered = skippedCount excluded unit.facts := by
  refine ⟨_, _, Index.ingestExcluding_eq_ok_iff.mpr ⟨path, unit, _, found, analyzed, rfl, rfl, rfl⟩, ?_⟩
  have merges := mergesById_mergeFacts reachable.wellFormed excluded ordered
  exact ⟨merges.row, merges.ids, merges.edges, merges.filtered⟩

section Example

/-- An observation of a function `f()`. -/
private def seenAs (resultType : String) (isDefinition : Bool) : SymbolFact where
  kind := .function
  scope := []
  spelling := "f"
  displayName := "f()"
  resultType := resultType
  isDefinition := isDefinition
  sourceFile := ⟨"/f.cpp"⟩
  translationUnit := ⟨"/f.cpp"⟩

/-- A unit that declares `f()`, defines it twice, and calls it twice and an unknown `g()` once. -/
private def twiceDefined : UnitFacts where
  translationUnit := ⟨"/f.cpp"⟩
  facts := [.callable (seenAs "int" false), .callable (seenAs "long" true),
    .callable (seenAs "void" true), .call ⟨"f()"⟩ ⟨"f()"⟩, .call ⟨"f()"⟩ ⟨"g()"⟩,
    .call ⟨"f()"⟩ ⟨"f()"⟩]
  warnings := []

private def twiceDefinedWorkspace : Workspace where
  files := ⟨.directory [("f.cpp", .file [])], [], .plain⟩
  analyze _ _ := .ok twiceDefined

/-- The last definition counts, with the known callees once each. -/
theorem ingest_twice_defined :
    twiceDefinedWorkspace.files.canonical? ⟨"/f.cpp"⟩ = some ⟨"/f.cpp"⟩ ∧
      twiceDefinedWorkspace.analyze ⟨"/f.cpp"⟩ [] = .ok twiceDefined ∧
      CallablesFirst twiceDefined.facts ∧ (Index.empty ⟨none⟩).Reachable ∧
      ∃ after report, (Index.empty ⟨none⟩).ingestExcluding twiceDefinedWorkspace []
          ⟨"/f.cpp"⟩ [] = .ok (after, report) ∧
        row? after.nodes ⟨"f()"⟩ = some ⟨(seenAs "void" true).toCallable ⟨none⟩, [⟨"f()"⟩]⟩ ∧
        after.ids = [⟨"f()"⟩] ∧ report.filtered = 0 := by
  have found : twiceDefinedWorkspace.files.canonical? ⟨"/f.cpp"⟩ = some ⟨"/f.cpp"⟩ := by decide
  have ordered : CallablesFirst twiceDefined.facts :=
    ⟨[seenAs "int" false, seenAs "long" true, seenAs "void" true],
      [(⟨"f()"⟩, ⟨"f()"⟩), (⟨"f()"⟩, ⟨"g()"⟩), (⟨"f()"⟩, ⟨"f()"⟩)], rfl⟩
  have reachable : (Index.empty ⟨none⟩).Reachable := ⟨⟨none⟩, [], rfl⟩
  obtain ⟨after, report, success, row, ids, _, filtered⟩ :=
    @ingest_eq_merge_by_id _ reachable twiceDefinedWorkspace [] ⟨"/f.cpp"⟩ ⟨"/f.cpp"⟩ []
      twiceDefined found rfl ordered
  refine ⟨found, rfl, ordered, reachable, after, report, success, ?_, ?_, ?_⟩
  · rw [row]
    decide
  · rw [ids]
    decide
  · rw [filtered]
    decide

end Example

end CallGraph
