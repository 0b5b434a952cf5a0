import CallGraph.Proofs.Search.Growth

/-!
# What ingests can contribute

Main results: `mem_ids_ingest_iff` and `Ingests.ids_subset_knowable`. An ingest makes known what the
unit of the file observes outside the excluded directories, and nothing else. So whichever files of
a catalog are ingested, in whatever order, all callables that ever get known are in a list that is
fixed beforehand (`knowable`).
-/
namespace CallGraph

/-- The callables that a unit observes outside some directories. -/
def observedIds (excluded : List Path) (facts : List Fact) : List CallableId :=
  (observations ⟨none⟩ excluded facts).map Callable.id

/-- What is observed does not depend on the root for the display. -/
theorem map_id_observations_eq (root : DisplayRoot) (excluded : List Path) (facts : List Fact) :
    (observations root excluded facts).map Callable.id = observedIds excluded facts := by
  rw [observedIds, observations, observations, List.map_filterMap, List.map_filterMap]
  apply List.filterMap_congr
  intro fact _
  cases fact with
  | callable symbol => dsimp only; split <;> rfl
  | call caller callee => rfl

/-- The keys of the nodes after some facts, in whatever order: a call adds none. -/
theorem Merge.keys_foldl_addFact (root : DisplayRoot) (excluded : List Path) (facts : List Fact)
    (merge : Merge) :
    (facts.foldl (addFact root excluded) merge).nodes.map GraphNode.key =
      (observedIds excluded facts).foldl pushNew (merge.nodes.map GraphNode.key) := by
  rw [← map_id_observations_eq root]
  induction facts generalizing merge with
  | nil => rfl
  | cons fact rest ih =>
    rw [List.foldl_cons, ih]
    cases fact with
    | callable symbol =>
      rw [addFact]
      split
      · rename_i skipped
        have dropped : observations root excluded (.callable symbol :: rest) =
            observations root excluded rest := List.filterMap_cons_none (if_pos skipped)
        rw [dropped]
      · rename_i kept
        have observed : observations root excluded (.callable symbol :: rest) =
            symbol.toCallable root :: observations root excluded rest :=
          List.filterMap_cons_some (if_neg kept)
        rw [observed, List.map_cons, List.foldl_cons, keys_addCallable]
    | call caller callee =>
      rw [addFact, keys_addCall]
      rfl

theorem mem_foldl_pushNew {α : Type} [DecidableEq α] {xs ys : List α} {x : α} :
    x ∈ ys.foldl pushNew xs ↔ x ∈ xs ∨ x ∈ ys := by
  rw [foldl_pushNew, List.mem_append, List.mem_eraseDups, List.mem_filter]
  by_cases known : x ∈ xs <;> simp [known]

namespace DefinitionSearch

variable {search : DefinitionSearch} {index after : Index}

/-- The callables that the analysis of a file can contribute to a graph. -/
def contributed (search : DefinitionSearch) (file : Path) : List CallableId :=
  match search.tools.files.canonical? file with
  | none => []
  | some path =>
    match search.tools.analyze path (search.argumentsOf file) with
    | .error _ => []
    | .ok unit => observedIds
      (search.tools.excludedDirectories (search.argumentsOf file) search.keepSystem) unit.facts

/-- All callables that are known or can get known, each once. -/
def knowable (search : DefinitionSearch) (index : Index) : List CallableId :=
  (index.ids ++ search.catalog.paths.flatMap search.contributed).eraseDups

theorem mem_knowable_iff {id : CallableId} :
    id ∈ search.knowable index ↔
      id ∈ index.ids ∨ ∃ file ∈ search.catalog.paths, id ∈ search.contributed file := by
  rw [knowable, List.mem_eraseDups, List.mem_append, List.mem_flatMap]

/-- An ingest makes known what the file contributes. -/
theorem mem_ids_ingest_iff {file : Path} {report : IngestReport}
    (success : search.ingest index file = .ok (after, report)) {id : CallableId} :
    id ∈ after.ids ↔ id ∈ index.ids ∨ id ∈ search.contributed file := by
  obtain ⟨path, unit, merge, found, analyzed, rfl, rfl, _⟩ :=
    Index.ingestExcluding_eq_ok_iff.mp success
  have contributes : search.contributed file = observedIds
      (search.tools.excludedDirectories (search.argumentsOf file) search.keepSystem)
        unit.facts := by
    unfold contributed
    split
    · rename_i missing
      cases missing.symm.trans found
    · rename_i place atPlace
      obtain rfl : place = path := Option.some.inj (atPlace.symm.trans found)
      rw [analyzed]
  have keys := Merge.keys_foldl_addFact index.root
    (search.tools.excludedDirectories (search.argumentsOf file) search.keepSystem) unit.facts
    (.start index.nodes)
  rw [contributes, ← mem_foldl_pushNew]
  exact Eq.to_iff (congrArg (id ∈ ·) keys)

/-- Whatever files of the catalog are ingested, all that gets known is knowable. -/
theorem Ingests.ids_subset_knowable {start : Index} {updated : List CallableId}
    (ingests : search.Ingests index after updated)
    (within : ∀ id ∈ index.ids, id ∈ search.knowable start) :
    ∀ id ∈ after.ids, id ∈ search.knowable start := by
  induction ingests with
  | none => exact within
  | next listed success _ ih =>
    refine ih fun id known => ?_
    rcases (mem_ids_ingest_iff success).mp known with old | new
    · exact within id old
    · exact mem_knowable_iff.mpr (.inr ⟨_, listed, new⟩)

end DefinitionSearch

end CallGraph
