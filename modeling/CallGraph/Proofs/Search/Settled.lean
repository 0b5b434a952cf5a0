import CallGraph.Listing
import CallGraph.Proofs.Search.Growth

/-!
# Settled callables

Main result: `define_settles`. Once the definition of a known callable has been searched for, the
callable is a definition, or no file is left that could have one: each file of the catalog that
mentions its spelling has been ingested, or cannot be.

Later ingests keep this. A definition stays one, a declaration keeps its spelling as long as it is
one, and whether a file can be ingested does not depend on the graph.
-/
namespace CallGraph

/-- What is found of a callable later on is the same record, if it is a declaration still. -/
theorem Index.find?_stays {before after : Index} (later : WellFormed after.nodes)
    (grown : Extends before.nodes after.nodes) {id : CallableId} {old : Callable}
    (found : before.find? id = some old) :
    ∃ new, after.find? id = some new ∧ (new.isDefinition = true ∨ new = old) := by
  rw [find?_eq_row?, Option.map_eq_some_iff] at found
  obtain ⟨row, atRow, rfl⟩ := found
  obtain ⟨position, node, atPosition, rfl, rfl⟩ := getElem?_of_row? atRow
  obtain ⟨new, kept, same⟩ := key_kept grown.ids atPosition
  have foundAfter : after.find? node.key = some new.callable := by
    rw [find?_eq_row?, ← same, later.row?_of_getElem? kept]
    rfl
  refine ⟨new.callable, foundAfter, ?_⟩
  by_cases defined : new.callable.isDefinition = true
  · exact .inl defined
  · have declared : node.callable.isDefinition = false := by
      by_contra definedBefore
      exact defined (grown.definition_stays position node new atPosition kept
        (by simpa using definedBefore))
    exact .inr (grown.declaration_stays position node new atPosition kept declared
      (by simpa using defined))

/-- Whether and why a file cannot be ingested does not depend on the graph. -/
theorem Index.ingest_error_of_any {tools : Toolchain} {index : Index} {file : Path}
    {arguments : List String} {keepSystem : Bool} {error : Error}
    (failure : index.ingest tools file arguments keepSystem = .error error) (other : Index) :
    other.ingest tools file arguments keepSystem = .error error := by
  unfold ingest ingestExcluding at failure ⊢
  split at failure
  · exact failure
  · split at failure
    · exact failure
    · cases failure

namespace DefinitionSearch

variable {search : DefinitionSearch} {index after : Index} {file : Path} {id : CallableId}

/-- Nothing more can come of a file: it has been ingested, or it cannot be. -/
def Spent (search : DefinitionSearch) (index : Index) (file : Path) : Prop :=
  index.isIngested search.tools.files file = true ∨
    ∃ error, search.ingest index file = .error error

/-- A callable is a definition, or each file of the catalog that mentions it is spent. -/
def Settled (search : DefinitionSearch) (index : Index) (id : CallableId) : Prop :=
  ∃ record, index.find? id = some record ∧ (record.isDefinition = true ∨
    ∀ file ∈ search.catalog.paths, mentions search.tools.files record.spelling file = true →
      search.Spent index file)

theorem Spent.grow {updated : List CallableId} (spent : search.Spent index file)
    (ingests : search.Ingests index after updated) : search.Spent after file := by
  induction ingests with
  | none => exact spent
  | next _ success _ ih =>
    apply ih
    rcases spent with ingested | ⟨error, failure⟩
    · exact .inl (Index.isIngested_mono success ingested)
    · exact .inr ⟨error, Index.ingest_error_of_any failure _⟩

theorem Settled.grow {updated : List CallableId} (settled : search.Settled index id)
    (wellFormed : WellFormed index.nodes) (ingests : search.Ingests index after updated) :
    search.Settled after id := by
  obtain ⟨old, found, known⟩ := settled
  have later := ingests.wellFormed wellFormed
  have grown := ingests.extendsNodes wellFormed
  obtain ⟨new, foundAfter, defined | rfl⟩ := Index.find?_stays later grown found
  · exact ⟨new, foundAfter, .inl defined⟩
  · refine ⟨new, foundAfter, known.imp_right fun spent => ?_⟩
    exact fun other listed mentioned => (spent other listed mentioned).grow ingests

theorem ingests_of_tryFiles {files : List Path} {attempts done : Attempts}
    (wellFormed : WellFormed index.nodes) (known : id ∈ index.ids)
    (listed : ∀ other ∈ files, other ∈ search.catalog.paths)
    (tried : (search.tryFiles id files attempts).run index = .ok done after) :
    ∃ updated, search.Ingests index after updated := by
  obtain ⟨_, _, updated, run, _, ingests⟩ := @run_tryFiles _ _ _ _ attempts wellFormed known
    listed
  rw [tried, EStateM.Result.ok.injEq] at run
  exact ⟨updated, run.2 ▸ ingests⟩

/-- Trying files for a callable leaves it defined, or all of the files spent. -/
theorem spent_of_tryFiles {files : List Path} {attempts done : Attempts}
    (wellFormed : WellFormed index.nodes) (known : id ∈ index.ids)
    (listed : ∀ other ∈ files, other ∈ search.catalog.paths)
    (tried : (search.tryFiles id files attempts).run index = .ok done after) :
    after.isDefined id = true ∨ ∀ other ∈ files, search.Spent after other := by
  induction files generalizing index attempts with
  | nil => exact .inr (by simp)
  | cons file rest ih =>
    have listedRest : ∀ other ∈ rest, other ∈ search.catalog.paths :=
      fun other member => listed other (List.mem_cons_of_mem _ member)
    -- Whatever comes of the first file: once it is spent, it is so after the others.
    have further {middle : Index} {attempts : Attempts} (still : WellFormed middle.nodes)
        (there : id ∈ middle.ids) (spent : search.Spent middle file)
        (triedRest : (search.tryFiles id rest attempts).run middle = .ok done after) :
        after.isDefined id = true ∨ ∀ other ∈ file :: rest, search.Spent after other := by
      obtain ⟨_, ingests⟩ := ingests_of_tryFiles still there listedRest triedRest
      refine (ih still there listedRest triedRest).imp_right fun spentRest => ?_
      exact List.forall_mem_cons.mpr ⟨spent.grow ingests, spentRest⟩
    rw [run_tryFiles_cons] at tried
    split at tried
    · rename_i ingested
      exact further wellFormed known (.inl ingested) tried
    · split at tried
      · rename_i error failure
        exact further wellFormed known (.inr ⟨error, failure⟩) tried
      · rename_i grown report success
        split at tried
        · cases tried
        · rename_i record found
          split at tried
          · rename_i defined
            cases tried
            exact .inl ((Index.isDefined_of_lookup found).2.trans defined)
          · have still := (Index.announces_ingest wellFormed success).known known
            exact further (Index.wellFormed_ingest wellFormed success) still
              (.inl (Index.isIngested_of_ingest success)) tried

theorem settled_of_resolveInPlace {resolution : Resolution} (wellFormed : WellFormed index.nodes)
    (success : (search.resolveInPlace id).run index = .ok resolution after) :
    search.Settled after id := by
  rw [run_resolveInPlace] at success
  split at success
  · cases success
  · rename_i target looked
    obtain ⟨found, _⟩ := Index.isDefined_of_lookup looked
    split at success
    · rename_i defined
      cases success
      exact ⟨target, found, .inl defined⟩
    · split at success
      · cases success
      · rename_i attempts grown tried
        split at success
        · cases success
        · cases success
          have known := Index.mem_ids_of_find? found
          have listed (file) (member : file ∈ search.candidates index target) :=
            (mem_candidates_iff.mp member).1
          obtain ⟨_, ingests⟩ := ingests_of_tryFiles wellFormed known listed tried
          obtain ⟨new, foundAfter, defined | rfl⟩ := Index.find?_stays
            (ingests.wellFormed wellFormed) (ingests.extendsNodes wellFormed) found
          · exact ⟨new, foundAfter, .inl defined⟩
          refine ⟨new, foundAfter, ?_⟩
          rcases spent_of_tryFiles wellFormed known listed tried with defined | spent
          · rw [Index.isDefined, foundAfter, Option.any_some] at defined
            exact .inl defined
          · -- A file that is no candidate although it is mentioned has been ingested before.
            refine .inr fun file inCatalog mentioned => ?_
            cases ingested : index.isIngested search.tools.files file with
            | true => exact Spent.grow (.inl ingested) ingests
            | false => exact spent file (mem_candidates_iff.mpr ⟨inCatalog, mentioned, ingested⟩)

/-- Making a known callable a definition, if that is possible, ingests files of the catalog and
leaves the callable settled. -/
theorem define_settles (search : DefinitionSearch) (wellFormed : WellFormed index.nodes)
    {callable : Callable} (found : index.find? id = some callable) :
    ∃ after updated, search.define index callable = .ok after ∧
      search.Ingests index after updated ∧ search.Settled after id := by
  unfold define
  split
  · rename_i defined
    exact ⟨index, [], rfl, .none index, callable, found, .inl defined⟩
  · obtain ⟨_, rfl⟩ := (Index.find?_eq_some_iff wellFormed).mp found
    rcases search.resolveInPlace_cases wellFormed callable.id with
      ⟨_, resolution, after, searched, ingests⟩ | ⟨unknown, _⟩
    · refine ⟨after, resolution.updated, ?_, ingests, settled_of_resolveInPlace wellFormed searched⟩
      rw [resolve, searched]
      rfl
    · exact absurd (Index.mem_ids_of_find? found) unknown

theorem settled_of_define {callable : Callable} (wellFormed : WellFormed index.nodes)
    (found : index.find? id = some callable) (defined : search.define index callable = .ok after) :
    (∃ updated, search.Ingests index after updated) ∧ search.Settled after id := by
  obtain ⟨_, updated, same, ingests, settled⟩ := search.define_settles wellFormed found
  rw [defined, Except.ok.injEq] at same
  subst same
  exact ⟨⟨updated, ingests⟩, settled⟩

end DefinitionSearch

end CallGraph
