import CallGraph.Proofs.Index.Calls
import CallGraph.Proofs.Index.Reference

/-!
# Definitions

Main results: `isDefined_of_extends` and `definedRow_mergeFacts`. A definition stays one, and a
callable that a unit defines outside the excluded directories is a definition after the merge of
the unit, in whatever order the facts come.

A definition is refused only for the sake of a record with callees, and such a record is a
definition already.
-/
namespace CallGraph

/-- What is known of a callable is its definition. -/
def DefinedRow (known? : Option GraphRow) : Prop :=
  ∃ row, known? = some row ∧ row.callable.isDefinition = true

/-- A unit defines a callable outside some directories. -/
def DefinesOutside (excluded : List Path) (facts : List Fact) (id : CallableId) : Prop :=
  ∃ symbol, Fact.callable symbol ∈ facts ∧ symbol.id = id ∧ symbol.isDefinition = true ∧
    excluded.any symbol.sourceFile.startsWith = false

theorem DefinedRow.observe {known? : Option GraphRow} (defined : DefinedRow known?)
    (record : Callable) : DefinedRow (Merge.observe known? record) := by
  obtain ⟨row, rfl, rowDefined⟩ := defined
  rw [Merge.observe]
  split
  · rename_i replaced
    exact ⟨_, rfl, replaced.1⟩
  · exact ⟨row, rfl, rowDefined⟩

theorem WellFormed.definedRow_of_finished {nodes : List GraphNode} (wellFormed : WellFormed nodes)
    {id : CallableId} (finished : ¬Unfinished (row? nodes id)) : DefinedRow (row? nodes id) := by
  obtain ⟨row, known⟩ := Option.isSome_iff_exists.mp (isSome_of_finished finished)
  obtain ⟨position, node, found, rfl, rfl⟩ := getElem?_of_row? known
  have member := List.mem_of_getElem? found
  refine ⟨_, known, (wellFormed.fits node member).caller_defined ?_⟩
  rw [ne_eq, ← wellFormed.row_callees_eq_nil_iff member]
  simpa [Unfinished, known] using finished

namespace Merge

variable {root : DisplayRoot} {excluded : List Path} {facts : List Fact}
  {before : List GraphNode} {merge : Merge}

theorem definedRow_addCallable (wellFormed : WellFormed merge.nodes) (callable : Callable)
    (defined : callable.isDefinition = true) :
    DefinedRow (row? (merge.addCallable callable).nodes callable.id) := by
  rw [row?_addCallable wellFormed, if_pos rfl]
  by_cases unfinished : Unfinished (row? merge.nodes callable.id)
  · rw [observe_of_definition unfinished defined]
    exact ⟨_, rfl, defined⟩
  · rw [observe_of_finished unfinished]
    exact wellFormed.definedRow_of_finished unfinished

/-- No fact of the unit takes a definition away. -/
theorem definedRow_addFact (merged : MergedFrom root excluded facts before merge) {fact : Fact}
    (member : fact ∈ facts) {id : CallableId} (defined : DefinedRow (row? merge.nodes id)) :
    DefinedRow (row? (merge.addFact root excluded fact).nodes id) := by
  have later := (merged.step member).wellFormed
  cases fact with
  | callable symbol =>
    rw [addFact]
    split
    · exact defined
    · rw [row?_addCallable merged.wellFormed]
      split
      · exact defined.observe _
      · exact defined
  | call caller callee =>
    rw [addFact] at later ⊢
    rw [row?_addCall merged.wellFormed later]
    split
    · obtain ⟨row, found, rowDefined⟩ := defined
      rw [found]
      exact ⟨_, rfl, rowDefined⟩
    · exact defined

theorem definedRow_foldl (merged : MergedFrom root excluded facts before merge) {rest : List Fact}
    (reported : ∀ fact ∈ rest, fact ∈ facts) {id : CallableId}
    (defined : DefinedRow (row? merge.nodes id)) :
    DefinedRow (row? (rest.foldl (addFact root excluded) merge).nodes id) := by
  induction rest generalizing merge with
  | nil => exact defined
  | cons fact rest ih =>
    have member := reported fact List.mem_cons_self
    exact ih (merged.step member)
      (fun other listed => reported other (List.mem_cons_of_mem _ listed))
      (definedRow_addFact merged member defined)

end Merge

namespace Index

/-- Whether a callable is known to be defined; none if it is not known. -/
def definition? (index : Index) (id : CallableId) : Option Bool :=
  (index.find? id).map Callable.isDefinition

theorem isDefined_iff {index : Index} {id : CallableId} :
    index.isDefined id = true ↔ DefinedRow (row? index.nodes id) := by
  rw [isDefined, find?_eq_row?, DefinedRow]
  cases row? index.nodes id <;> simp

theorem isDefined_of_lookup {index : Index} {id : CallableId} {record : Callable}
    (found : index.lookup id = .ok record) :
    index.find? id = some record ∧ index.isDefined id = record.isDefinition := by
  unfold lookup at found
  split at found
  · rename_i callable atId
    cases found
    exact ⟨atId, by rw [isDefined, atId, Option.any_some]⟩
  · cases found

theorem isDefined_of_extends {before after : Index} (later : WellFormed after.nodes)
    (grown : Extends before.nodes after.nodes) {id : CallableId}
    (defined : before.isDefined id = true) : after.isDefined id = true := by
  obtain ⟨row, found, rowDefined⟩ := isDefined_iff.mp defined
  obtain ⟨position, node, atPosition, rfl, rfl⟩ := getElem?_of_row? found
  obtain ⟨new, kept, same⟩ := key_kept grown.ids atPosition
  rw [isDefined_iff, ← same, later.row?_of_getElem? kept]
  exact ⟨_, rfl, grown.definition_stays position node new atPosition kept rowDefined⟩

theorem definedRow_mergeFacts {index : Index} (wellFormed : WellFormed index.nodes)
    {excluded : List Path} {facts : List Fact} {id : CallableId}
    (reported : DefinesOutside excluded facts id) :
    DefinedRow (row? (index.mergeFacts excluded facts).nodes id) := by
  obtain ⟨symbol, member, rfl, defined, kept⟩ := reported
  obtain ⟨earlier, rest, rfl⟩ := List.append_of_mem member
  -- The merge is cut at the definition: what comes before keeps the graph well formed, and what
  -- comes after keeps the definition.
  have reachesHere : MergedFrom index.root excluded (earlier ++ .callable symbol :: rest)
      index.nodes (earlier.foldl (Merge.addFact index.root excluded) (.start index.nodes)) :=
    List.foldlRecOn earlier _ (.start wellFormed) fun _ merged _ listed =>
      merged.step (List.mem_append_left _ listed)
  rw [mergeFacts, List.foldl_append, List.foldl_cons]
  refine Merge.definedRow_foldl (reachesHere.step member) ?_ ?_
  · intro fact listed
    exact List.mem_append_right _ (List.mem_cons_of_mem _ listed)
  · rw [Merge.addFact, if_neg (by simp [kept])]
    exact Merge.definedRow_addCallable reachesHere.wellFormed (symbol.toCallable index.root) defined

end Index

end CallGraph
