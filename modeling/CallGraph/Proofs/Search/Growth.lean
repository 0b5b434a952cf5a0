import CallGraph.DefinitionSearch
import CallGraph.Proofs.Index.Definition
import CallGraph.Proofs.Index.Report

/-!
# Growth of an index

Main result: `resolveInPlace_cases`. A search for the definition of a known callable succeeds,
whatever comes of the files that it tries: it ingests some files of the catalog, and an ingest
forgets no callable. Without a known callable it fails before anything is done.

What an ingest lists is enough to follow the callables and which of them are definitions
(`Announces`), and so is what a whole search lists.
-/
namespace CallGraph

namespace Index

/-- A list of callables tells which are new, in the order of discovery, and which may have become
definitions. -/
structure Announces (before after : Index) (updated : List CallableId) : Prop where
  ids : after.ids = updated.foldl pushNew before.ids
  kept : ∀ id, id ∉ updated → after.definition? id = before.definition? id

namespace Announces

variable {before middle after : Index} {first second : List CallableId}

theorem refl (index : Index) : Announces index index [] where
  ids := rfl
  kept _ _ := rfl

theorem trans (head : Announces before middle first) (tail : Announces middle after second) :
    Announces before after (first ++ second) where
  ids := by rw [tail.ids, head.ids, List.foldl_append]
  kept := by
    intro id unlisted
    rw [List.mem_append, not_or] at unlisted
    rw [tail.kept id unlisted.2, head.kept id unlisted.1]

theorem known (announces : Announces before after first) {id : CallableId}
    (member : id ∈ before.ids) : id ∈ after.ids := by
  rw [announces.ids, foldl_pushNew]
  exact List.mem_append_left _ member

theorem listed (announces : Announces before after first) {id : CallableId}
    (member : id ∈ first) : id ∈ after.ids := by
  rw [announces.ids, foldl_pushNew, List.mem_append, List.mem_eraseDups, List.mem_filter]
  by_cases old : id ∈ before.ids
  · exact .inl old
  · exact .inr ⟨member, by simpa using old⟩

end Announces

theorem mem_ids_iff {index : Index} {id : CallableId} :
    id ∈ index.ids ↔ ∃ callable, index.find? id = some callable := by
  rw [← Option.isSome_iff_exists, ← not_iff_not, ← find?_eq_none_iff, Option.not_isSome_iff_eq_none]

theorem lookup_eq_ok {index : Index} {id : CallableId} (known : id ∈ index.ids) :
    ∃ callable, index.lookup id = .ok callable := by
  obtain ⟨callable, found⟩ := mem_ids_iff.mp known
  exact ⟨callable, by rw [lookup, found]⟩

theorem lookup_eq_error {index : Index} {id : CallableId} (unknown : id ∉ index.ids) :
    index.lookup id = .error (.unknownSymbol id) := by
  rw [lookup, find?_eq_none_iff.mpr unknown]

section Ingest

variable {tools : Toolchain} {index after : Index} {file : Path} {arguments : List String}
  {keepSystem : Bool} {report : IngestReport}

theorem wellFormed_ingest (wellFormed : WellFormed index.nodes)
    (success : index.ingest tools file arguments keepSystem = .ok (after, report)) :
    WellFormed after.nodes := by
  obtain ⟨_, unit, _, _, _, rfl, rfl, _⟩ := ingestExcluding_eq_ok_iff.mp success
  exact (mergedFrom_mergeFacts wellFormed _ unit.facts).wellFormed

theorem extends_ingest (wellFormed : WellFormed index.nodes)
    (success : index.ingest tools file arguments keepSystem = .ok (after, report)) :
    Extends index.nodes after.nodes := by
  obtain ⟨_, unit, _, _, _, rfl, rfl, _⟩ := ingestExcluding_eq_ok_iff.mp success
  exact (mergedFrom_mergeFacts wellFormed _ unit.facts).toExtends

theorem announces_ingest (wellFormed : WellFormed index.nodes)
    (success : index.ingest tools file arguments keepSystem = .ok (after, report)) :
    Announces index after report.updated := by
  obtain ⟨_, unit, merge, _, _, merged, rfl, rfl⟩ := ingestExcluding_eq_ok_iff.mp success
  have told : Merge.Told index.nodes merge := by
    rw [merged]
    exact told_mergeFacts wellFormed _ unit.facts
  refine ⟨told.keys, fun id unlisted => ?_⟩
  rw [definition?, definition?, find?_eq_row?, find?_eq_row?]
  -- A definition that is put in the place of another is a definition still.
  rcases told.unlisted id unlisted with same | ⟨old, new, atOld, atNew, oldDefined, _, newDefined⟩
  · rw [same]
  · rw [atOld, atNew, Option.map_some, Option.map_some, Option.map_some, Option.map_some,
      oldDefined, newDefined]

/-- The one file that an ingest adds is remembered by its canonical path. -/
theorem mem_ingested_of_ingest
    (success : index.ingest tools file arguments keepSystem = .ok (after, report)) {path : Path}
    (member : path ∈ after.ingested) :
    path ∈ index.ingested ∨ tools.files.canonical? file = some path := by
  obtain ⟨place, _, _, found, _, _, rfl, _⟩ := ingestExcluding_eq_ok_iff.mp success
  rw [addPath] at member
  split at member
  · exact .inl member
  · rcases List.mem_append.mp member with old | last
    · exact .inl old
    · rw [List.mem_singleton.mp last]
      exact .inr found

/-- An ingest fails with an error of its own only if the file is missing. -/
theorem error_of_ingest {error : Error}
    (failure : index.ingest tools file arguments keepSystem = .error error) :
    error = .sourceNotFound file ∨ ∃ path, tools.files.canonical? file = some path ∧
      tools.analyze path arguments = .error error := by
  unfold ingest ingestExcluding at failure
  split at failure
  · cases failure
    exact .inl rfl
  · rename_i path found
    split at failure
    · rename_i reported analyzed
      cases failure
      exact .inr ⟨path, found, analyzed⟩
    · cases failure

end Ingest

end Index

namespace DefinitionSearch

/-- Some files of the catalog are ingested one after another, which lists some callables. -/
inductive Ingests (search : DefinitionSearch) : Index → Index → List CallableId → Prop where
  | none (index : Index) : Ingests search index index []
  | next {index middle after : Index} {file : Path} {report : IngestReport}
    {updated : List CallableId} (listed : file ∈ search.catalog.paths)
    (success : search.ingest index file = .ok (middle, report))
    (rest : Ingests search middle after updated) :
    Ingests search index after (report.updated ++ updated)

variable {search : DefinitionSearch} {index after : Index}

theorem Ingests.trans {middle : Index} {first second : List CallableId}
    (head : search.Ingests index middle first) (tail : search.Ingests middle after second) :
    search.Ingests index after (first ++ second) := by
  induction head with
  | none => exact tail
  | next listed success _ ih =>
    rw [List.append_assoc]
    exact .next listed success (ih tail)

theorem Ingests.wellFormed {updated : List CallableId}
    (ingests : search.Ingests index after updated) (wellFormed : WellFormed index.nodes) :
    WellFormed after.nodes := by
  induction ingests with
  | none => exact wellFormed
  | next _ success _ ih => exact ih (Index.wellFormed_ingest wellFormed success)

theorem Ingests.extendsNodes {updated : List CallableId}
    (ingests : search.Ingests index after updated) (wellFormed : WellFormed index.nodes) :
    Extends index.nodes after.nodes := by
  induction ingests with
  | none => exact .refl _
  | next _ success _ ih =>
    have first := Index.extends_ingest wellFormed success
    exact first.trans (ih (Index.wellFormed_ingest wellFormed success))

theorem Ingests.announces {updated : List CallableId}
    (ingests : search.Ingests index after updated) (wellFormed : WellFormed index.nodes) :
    index.Announces after updated := by
  induction ingests with
  | none => exact .refl _
  | next _ success _ ih =>
    have first := Index.announces_ingest wellFormed success
    exact first.trans (ih (Index.wellFormed_ingest wellFormed success))

theorem Ingests.mem_ingested {updated : List CallableId}
    (ingests : search.Ingests index after updated) {path : Path} (member : path ∈ after.ingested) :
    path ∈ index.ingested ∨
      ∃ file ∈ search.catalog.paths, search.tools.files.canonical? file = some path := by
  induction ingests with
  | none => exact .inl member
  | next listed success _ ih =>
    rcases ih member with earlier | later
    · exact (Index.mem_ingested_of_ingest success earlier).imp_right fun found => ⟨_, listed, found⟩
    · exact .inr later

theorem mem_candidates_iff {file : Path} {callable : Callable} :
    file ∈ search.candidates index callable ↔ file ∈ search.catalog.paths ∧
      mentions search.tools.files callable.spelling file = true ∧
      index.isIngested search.tools.files file = false := by
  simp [candidates, List.mem_filter]

/-- Trying files does not fail: the callable that is looked for stays known. -/
theorem run_tryFiles {id : CallableId} {files : List Path} {attempts : Attempts}
    (wellFormed : WellFormed index.nodes) (known : id ∈ index.ids)
    (listed : ∀ file ∈ files, file ∈ search.catalog.paths) :
    ∃ done after updated, (search.tryFiles id files attempts).run index = .ok done after ∧
      done.updated = attempts.updated ++ updated ∧ search.Ingests index after updated := by
  induction files generalizing index attempts with
  | nil => exact ⟨attempts, index, [], rfl, by simp, .none index⟩
  | cons file rest ih =>
    have listedRest : ∀ other ∈ rest, other ∈ search.catalog.paths :=
      fun other member => listed other (List.mem_cons_of_mem _ member)
    rw [run_tryFiles_cons]
    split
    · exact ih wellFormed known listedRest
    · -- A file that fails is passed over. One that is merged forgets nothing.
      cases ingested : search.ingest index file with
      | error error => exact ih wellFormed known listedRest
      | ok result =>
        obtain ⟨grown, report⟩ := result
        have later := Index.wellFormed_ingest wellFormed ingested
        have still := (Index.announces_ingest wellFormed ingested).known known
        have isListed := listed file List.mem_cons_self
        obtain ⟨record, found⟩ := Index.lookup_eq_ok still
        simp only [found]
        split
        · refine ⟨_, _, report.updated, rfl, rfl, ?_⟩
          simpa using Ingests.next isListed ingested (.none grown)
        · obtain ⟨done, after, updated, tried, lists, ingests⟩ :=
            @ih grown (attempts.merge file report) later still listedRest
          refine ⟨done, after, _, tried, ?_, .next isListed ingested ingests⟩
          rw [lists, Attempts.merge, List.append_assoc]

/-- A search fails exactly for a callable that is not known, and then leaves the index alone. -/
theorem resolveInPlace_cases (search : DefinitionSearch) (wellFormed : WellFormed index.nodes)
    (id : CallableId) :
    (id ∈ index.ids ∧ ∃ resolution after,
      (search.resolveInPlace id).run index = .ok resolution after ∧
      search.Ingests index after resolution.updated) ∨
    (id ∉ index.ids ∧ (search.resolveInPlace id).run index = .error (.unknownSymbol id) index) := by
  rw [run_resolveInPlace]
  by_cases known : id ∈ index.ids
  · refine .inl ⟨known, ?_⟩
    obtain ⟨target, found⟩ := Index.lookup_eq_ok known
    simp only [found]
    split
    · exact ⟨_, _, rfl, .none index⟩
    · have listed : ∀ file ∈ search.candidates index target, file ∈ search.catalog.paths :=
        fun file => mem_paths_of_mem_candidates
      obtain ⟨attempts, after, updated, tried, lists, ingests⟩ :=
        @run_tryFiles search index id _ Attempts.none wellFormed known listed
      have still := (ingests.announces wellFormed).known known
      obtain ⟨record, foundAfter⟩ := Index.lookup_eq_ok still
      simp only [tried, foundAfter]
      refine ⟨_, _, rfl, ?_⟩
      have all : attempts.updated = updated := lists
      exact all ▸ ingests
  · exact .inr ⟨known, by rw [Index.lookup_eq_error known]⟩

end DefinitionSearch

end CallGraph
