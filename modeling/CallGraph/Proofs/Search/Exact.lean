import CallGraph.Proofs.Catalog.Entries
import CallGraph.Proofs.Index.Definition
import CallGraph.Proofs.Search.Growth

/-!
# What a search does

Main result: `resolveInPlace_exact`. The search for the definition of a declaration ingests its
candidates one after another and stops at the first of them after which the callable is defined.
None is passed over as ingested already, those that fail make no difference, and if one of them has
the definition, then the search finds one.

The candidates are canonical and no two of them are the same, so the ingest of one leaves the
others pending. With that, trying them is an induction on their list.
-/
namespace CallGraph

theorem FileSystem.canonical?_of_read {files : FileSystem} {path : Path} {bytes : List UInt8}
    (read : files.read path = .ok bytes) : ∃ place, files.canonical? path = some place := by
  unfold FileSystem.read at read
  split at read
  · cases read
  · rename_i location located
    exact ⟨Path.ofLocation location, by rw [canonical?, located]⟩

namespace DefinitionSearch

/-! ### Files that are ingested whatever comes of it -/

/-- The index after a file; one that fails leaves it as it is. -/
def afterFile (search : DefinitionSearch) (index : Index) (file : Path) : Index :=
  match search.ingest index file with
  | .ok (after, _) => after
  | .error _ => index

def afterFiles (search : DefinitionSearch) (index : Index) (files : List Path) : Index :=
  files.foldl search.afterFile index

/-- What comes of each of some files that are ingested one after another. -/
def outcomes (search : DefinitionSearch) :
    Index → List Path → List (Path × Except Error IngestReport)
  | _, [] => []
  | index, file :: rest =>
    (file, (search.ingest index file).map Prod.snd) ::
      search.outcomes (search.afterFile index file) rest

def failureOf : Path × Except Error IngestReport → Option CandidateFailure
  | (file, .error error) => some ⟨file, error.kind, error.message⟩
  | (_, .ok _) => none

def mergedOf : Path × Except Error IngestReport → Option Path
  | (_, .error _) => none
  | (file, .ok _) => some file

def listedBy : Path × Except Error IngestReport → List CallableId
  | (_, .error _) => []
  | (_, .ok report) => report.updated

variable {search : DefinitionSearch} {index after : Index} {file : Path}

theorem afterFile_of_ok {report : IngestReport}
    (success : search.ingest index file = .ok (after, report)) :
    search.afterFile index file = after := by
  rw [afterFile, success]

theorem afterFile_of_error {error : Error} (failure : search.ingest index file = .error error) :
    search.afterFile index file = index := by
  rw [afterFile, failure]

theorem afterFiles_of_ok {report : IngestReport}
    (success : search.ingest index file = .ok (after, report)) (rest : List Path) :
    search.afterFiles index (file :: rest) = search.afterFiles after rest := by
  rw [afterFiles, List.foldl_cons, afterFile_of_ok success, afterFiles]

theorem afterFiles_of_error {error : Error} (failure : search.ingest index file = .error error)
    (rest : List Path) :
    search.afterFiles index (file :: rest) = search.afterFiles index rest := by
  rw [afterFiles, List.foldl_cons, afterFile_of_error failure, afterFiles]

theorem outcomes_of_ok {report : IngestReport}
    (success : search.ingest index file = .ok (after, report)) (rest : List Path) :
    search.outcomes index (file :: rest) = (file, .ok report) :: search.outcomes after rest := by
  rw [outcomes, success, afterFile_of_ok success]
  rfl

theorem outcomes_of_error {error : Error} (failure : search.ingest index file = .error error)
    (rest : List Path) :
    search.outcomes index (file :: rest) = (file, .error error) :: search.outcomes index rest := by
  rw [outcomes, failure, afterFile_of_error failure]
  rfl

theorem map_fst_outcomes (index : Index) (files : List Path) :
    (search.outcomes index files).map Prod.fst = files := by
  induction files generalizing index with
  | nil => rfl
  | cons file rest ih => rw [outcomes, List.map_cons, ih]

/-- The files that fail might as well not be there. -/
theorem afterFiles_mergedOf (index : Index) (files : List Path) :
    search.afterFiles index ((search.outcomes index files).filterMap mergedOf) =
      search.afterFiles index files := by
  induction files generalizing index with
  | nil => rfl
  | cons file rest ih =>
    cases ingested : search.ingest index file with
    | error error =>
      rw [outcomes_of_error ingested, List.filterMap_cons_none rfl, ih,
        afterFiles_of_error ingested]
    | ok result =>
      have kept : ((file, .ok result.2) :: search.outcomes result.1 rest).filterMap mergedOf =
          file :: (search.outcomes result.1 rest).filterMap mergedOf := rfl
      rw [outcomes_of_ok ingested, kept, afterFiles_of_ok ingested, afterFiles_of_ok ingested, ih]

/-- A file whose unit defines a callable. -/
def Defines (search : DefinitionSearch) (file : Path) (id : CallableId) : Prop :=
  ∃ path unit, search.tools.files.canonical? file = some path ∧
    search.tools.analyze path (search.argumentsOf file) = .ok unit ∧
    DefinesOutside (search.tools.excludedDirectories (search.argumentsOf file) search.keepSystem)
      unit.facts id

section WellFormed

variable (search) (wellFormed : WellFormed index.nodes)
include wellFormed

theorem wellFormed_afterFile (file : Path) : WellFormed (search.afterFile index file).nodes := by
  unfold afterFile
  split
  · rename_i after report success
    exact Index.wellFormed_ingest wellFormed success
  · exact wellFormed

theorem extends_afterFile (file : Path) :
    Extends index.nodes (search.afterFile index file).nodes := by
  unfold afterFile
  split
  · rename_i after report success
    exact Index.extends_ingest wellFormed success
  · exact .refl _

theorem wellFormed_afterFiles (files : List Path) :
    WellFormed (search.afterFiles index files).nodes :=
  List.foldlRecOn (motive := fun index : Index => WellFormed index.nodes) files _ wellFormed
    fun _ still file _ => search.wellFormed_afterFile still file

theorem extends_afterFiles (files : List Path) :
    Extends index.nodes (search.afterFiles index files).nodes := by
  induction files generalizing index with
  | nil => exact .refl _
  | cons file rest ih =>
    have first := search.extends_afterFile wellFormed file
    exact first.trans (ih (search.wellFormed_afterFile wellFormed file))

theorem isDefined_afterFile {id : CallableId} (defines : search.Defines file id) :
    (search.afterFile index file).isDefined id = true := by
  obtain ⟨path, unit, found, analyzed, reported⟩ := defines
  have success : search.ingest index file = .ok (⟨index.root, _, _⟩, ⟨_, _, _, _⟩) :=
    Index.ingestExcluding_eq_ok_iff.mpr ⟨path, unit, _, found, analyzed, rfl, rfl, rfl⟩
  rw [afterFile_of_ok success, Index.isDefined_iff]
  exact Index.definedRow_mergeFacts wellFormed reported

theorem isDefined_afterFiles {files : List Path} (member : file ∈ files) {id : CallableId}
    (defines : search.Defines file id) : (search.afterFiles index files).isDefined id = true := by
  -- What comes before the file keeps the graph well formed, what comes after it the definition.
  obtain ⟨earlier, rest, rfl⟩ := List.append_of_mem member
  have still := search.wellFormed_afterFiles wellFormed earlier
  have next := search.wellFormed_afterFile still file
  have here := search.isDefined_afterFile still defines
  rw [afterFiles, List.foldl_append, List.foldl_cons]
  exact Index.isDefined_of_extends (search.wellFormed_afterFiles next rest)
    (search.extends_afterFiles next rest) here

end WellFormed

/-! ### Candidates stay pending -/

theorem isIngested_afterFile {other : Path}
    (pending : index.isIngested search.tools.files other = false)
    (apart : ∀ path, search.tools.files.canonical? file = some path →
      (search.tools.files.canonical other).same path = false) :
    (search.afterFile index file).isIngested search.tools.files other = false := by
  unfold afterFile
  split
  · rename_i after report success
    rw [Index.isIngested, List.any_eq_false] at pending ⊢
    -- Only the canonical path of the file is new among those that are remembered.
    intro path member
    rcases Index.mem_ingested_of_ingest success member with old | new
    · exact pending path old
    · simp [apart path new]
  · exact pending

/-- Some files are canonical, pending and not the same. -/
structure Pending (search : DefinitionSearch) (index : Index) (files : List Path) : Prop where
  canonical : ∀ file ∈ files, search.tools.files.canonical? file = some file
  distinct : Catalog.Distinct files
  pending : ∀ file ∈ files, index.isIngested search.tools.files file = false

theorem Pending.next {rest : List Path} (files : search.Pending index (file :: rest)) :
    search.Pending (search.afterFile index file) rest where
  canonical other member := files.canonical other (List.mem_cons_of_mem _ member)
  distinct := (List.nodup_cons.mp files.distinct).2
  pending := by
    intro other member
    have listed := List.mem_cons_of_mem file member
    refine isIngested_afterFile (files.pending other listed) fun path found => ?_
    -- Both files are canonical, so it is their own paths that are compared.
    have atOther : search.tools.files.canonical other = other := by
      rw [FileSystem.canonical, files.canonical other listed, Option.getD_some]
    rw [files.canonical file List.mem_cons_self, Option.some.injEq] at found
    subst found
    rw [atOther, ← Bool.not_eq_true, Path.same_iff]
    intro same
    exact (List.nodup_cons.mp files.distinct).1 (same ▸ List.mem_map_of_mem member)

theorem Pending.afterFiles {earlier rest : List Path}
    (files : search.Pending index (earlier ++ rest)) :
    search.Pending (search.afterFiles index earlier) rest := by
  induction earlier generalizing index with
  | nil => exact files
  | cons file earlier ih => exact ih files.next

theorem pending_candidates (built : search.catalog.Built search.tools.files)
    (wellNamed : search.tools.files.WellNamed) (index : Index) (target : Callable) :
    search.Pending index (search.candidates index target) := by
  constructor
  · intro file member
    obtain ⟨listed, mentioned, _⟩ := mem_candidates_iff.mp member
    unfold mentions at mentioned
    split at mentioned
    · rename_i bytes read
      obtain ⟨place, found⟩ := FileSystem.canonical?_of_read read
      rw [found, built.settles wellNamed file listed place found]
    · cases mentioned
  · -- The candidates are some of the catalog's paths in another order.
    have kept : ((search.catalog.paths.filter fun file =>
        !index.isIngested search.tools.files file).filter
          (mentions search.tools.files target.spelling)).Sublist search.catalog.paths :=
      List.filter_sublist.trans List.filter_sublist
    have sorted := List.mergeSort_perm ((search.catalog.paths.filter fun file =>
        !index.isIngested search.tools.files file).filter
          (mentions search.tools.files target.spelling)) fun left right =>
      sharedSteps target.translationUnit right ≤ sharedSteps target.translationUnit left
    exact (sorted.map Path.components).nodup_iff.mpr (built.distinct.sublist (kept.map _))
  · intro file member
    exact (mem_candidates_iff.mp member).2.2

/-! ### The run of a search -/

/-- The shortest prefix of some files after which a callable is defined, and all of them if there
is none. -/
structure Shortest (search : DefinitionSearch) (index : Index) (id : CallableId)
    (files tried : List Path) : Prop where
  leads : tried <+: files
  undefined_before : ∀ shorter, shorter <+: tried → shorter ≠ tried →
    (search.afterFiles index shorter).isDefined id = false
  stopped : (search.afterFiles index tried).isDefined id = true ∨ tried = files

namespace Shortest

variable {id : CallableId} {rest tried : List Path}

theorem nil : search.Shortest index id [] [] where
  leads := List.prefix_rfl
  undefined_before _ leads differs := absurd (List.prefix_nil.mp leads) differs
  stopped := .inr rfl

theorem here (undefined : index.isDefined id = false)
    (defined : (search.afterFile index file).isDefined id = true) :
    search.Shortest index id (file :: rest) [file] where
  leads := List.prefix_append [file] rest
  undefined_before := by
    intro shorter leads differs
    rcases List.prefix_cons_iff.mp leads with rfl | ⟨more, rfl, leadsNil⟩
    · exact undefined
    · exact absurd (by rw [List.prefix_nil.mp leadsNil]) differs
  stopped := .inl defined

theorem cons (undefined : index.isDefined id = false)
    (later : search.Shortest (search.afterFile index file) id rest tried) :
    search.Shortest index id (file :: rest) (file :: tried) where
  leads := (List.prefix_cons_inj file).mpr later.leads
  undefined_before := by
    intro shorter leads differs
    rcases List.prefix_cons_iff.mp leads with rfl | ⟨more, rfl, leadsTried⟩
    · exact undefined
    · exact later.undefined_before more leadsTried fun same => differs (by rw [same])
  stopped := later.stopped.imp_right fun all => by rw [all]

theorem eq_of_prefix {files other : List Path} (first : search.Shortest index id files tried)
    (second : search.Shortest index id files other) (leads : tried <+: other) : tried = other := by
  by_contra differs
  have undefined := second.undefined_before tried leads differs
  rcases first.stopped with defined | all
  · rw [undefined] at defined
    cases defined
  · exact differs (leads.eq_of_length_le (all ▸ second.leads.length_le))

theorem unique {files other : List Path} (first : search.Shortest index id files tried)
    (second : search.Shortest index id files other) : tried = other := by
  -- Of two prefixes of the same files, one leads the other.
  rcases List.prefix_or_prefix_of_prefix first.leads second.leads with leads | leads
  · exact first.eq_of_prefix second leads
  · exact (second.eq_of_prefix first leads).symm

end Shortest

def Attempts.record (attempts : Attempts)
    (outcomes : List (Path × Except Error IngestReport)) : Attempts where
  attempted := attempts.attempted ++ outcomes.map Prod.fst
  failures := attempts.failures ++ outcomes.filterMap failureOf
  updated := attempts.updated ++ outcomes.flatMap listedBy

theorem Attempts.record_fail (attempts : Attempts) (file : Path) (error : Error)
    (outcomes : List (Path × Except Error IngestReport)) :
    (attempts.fail file error).record outcomes =
      attempts.record ((file, .error error) :: outcomes) := by
  simp [record, fail, failureOf, listedBy]

theorem Attempts.record_merge (attempts : Attempts) (file : Path) (report : IngestReport)
    (outcomes : List (Path × Except Error IngestReport)) :
    (attempts.merge file report).record outcomes =
      attempts.record ((file, .ok report) :: outcomes) := by
  simp [record, merge, List.filterMap_cons, failureOf, listedBy]

/-- Trying pending files for a callable that is not defined stops at the first after which it is. -/
theorem run_tryFiles_shortest {id : CallableId} {files : List Path} (attempts : Attempts)
    (wellFormed : WellFormed index.nodes) (known : id ∈ index.ids)
    (undefined : index.isDefined id = false) (pending : search.Pending index files) :
    ∃ tried, search.Shortest index id files tried ∧
      (search.tryFiles id files attempts).run index =
        .ok (attempts.record (search.outcomes index tried)) (search.afterFiles index tried) := by
  -- The index and the attempts change from file to file, so both are general in the induction.
  induction files generalizing index attempts with
  | nil =>
    refine ⟨[], .nil, ?_⟩
    simp [tryFiles, Attempts.record, outcomes, afterFiles]
  | cons file rest ih =>
    have next := pending.next
    rw [run_tryFiles_cons, if_neg (by simp [pending.pending file List.mem_cons_self])]
    cases ingested : search.ingest index file with
    | error error =>
      -- The search goes on from the index as it was.
      rw [afterFile_of_error ingested] at next
      obtain ⟨tried, shortest, run⟩ := ih (attempts.fail file error) wellFormed known undefined next
      refine ⟨file :: tried, .cons undefined ?_, ?_⟩
      · rwa [afterFile_of_error ingested]
      · rw [outcomes_of_error ingested, ← Attempts.record_fail, afterFiles_of_error ingested]
        exact run
    | ok result =>
      obtain ⟨grown, report⟩ := result
      have after := afterFile_of_ok ingested
      have later := Index.wellFormed_ingest wellFormed ingested
      have still := (Index.announces_ingest wellFormed ingested).known known
      obtain ⟨record, looked⟩ := Index.lookup_eq_ok still
      have agrees := (Index.isDefined_of_lookup looked).2
      simp only [looked]
      by_cases defined : record.isDefinition = true
      · refine ⟨[file], .here undefined (by rw [after, agrees, defined]), ?_⟩
        rw [if_pos defined, outcomes_of_ok ingested, ← Attempts.record_merge,
          afterFiles_of_ok ingested]
        simp [Attempts.record, outcomes, afterFiles]
      · have unresolved : grown.isDefined id = false := by
          rw [agrees]
          simpa using defined
        rw [after] at next
        obtain ⟨tried, shortest, run⟩ :=
          ih (attempts.merge file report) later still unresolved next
        refine ⟨file :: tried, .cons undefined ?_, ?_⟩
        · rwa [after]
        · rw [if_neg defined, outcomes_of_ok ingested, ← Attempts.record_merge,
            afterFiles_of_ok ingested]
          exact run

/-- What a search for the definition of a declaration comes to. -/
structure Exact (search : DefinitionSearch) (index : Index) (id : CallableId) (target : Callable)
    (resolution : Resolution) (after : Index) : Prop where
  attempted : search.Shortest index id (search.candidates index target) resolution.attempted
  unskipped : ∀ earlier file later, search.candidates index target = earlier ++ file :: later →
    (search.afterFiles index earlier).isIngested search.tools.files file = false
  after_attempted : after = search.afterFiles index resolution.attempted
  failures : resolution.failures =
    (search.outcomes index resolution.attempted).filterMap failureOf
  /-- What fails leaves the index as it is. -/
  after_merged : after = search.afterFiles index
    ((search.outcomes index resolution.attempted).filterMap mergedOf)
  updated : resolution.updated = (search.outcomes index resolution.attempted).flatMap listedBy
  callable : after.find? id = some resolution.callable
  complete : (∃ file ∈ search.candidates index target, search.Defines file id) →
    resolution.callable.isDefinition = true

/-- The search for the definition of a known callable succeeds. It does nothing for a definition,
and for a declaration it does exactly what its candidates call for. -/
theorem resolveInPlace_exact (search : DefinitionSearch) {index : Index}
    (reachable : index.Reachable) (built : search.catalog.Built search.tools.files)
    (wellNamed : search.tools.files.WellNamed) {id : CallableId} {target : Callable}
    (found : index.find? id = some target) :
    (target.isDefinition = true →
      (search.resolveInPlace id).run index = .ok ⟨target, [], [], []⟩ index) ∧
    (target.isDefinition = false → ∃ resolution after,
      (search.resolveInPlace id).run index = .ok resolution after ∧
      search.Exact index id target resolution after) := by
  have wellFormed := reachable.wellFormed
  have looked : index.lookup id = .ok target := by rw [Index.lookup, found]
  rw [run_resolveInPlace, looked]
  constructor
  · intro defined
    exact if_pos defined
  · intro declared
    have known := Index.mem_ids_of_find? found
    have undefined : index.isDefined id = false := by
      rw [(Index.isDefined_of_lookup looked).2, declared]
    have pending := search.pending_candidates built wellNamed index target
    obtain ⟨tried, shortest, run⟩ :=
      run_tryFiles_shortest .none wellFormed known undefined pending
    have grown := search.extends_afterFiles wellFormed tried
    have still : id ∈ (search.afterFiles index tried).ids := grown.ids.subset known
    obtain ⟨record, lookedAfter⟩ := Index.lookup_eq_ok still
    obtain ⟨foundAfter, agrees⟩ := Index.isDefined_of_lookup lookedAfter
    have attempted : tried = (Attempts.none.record (search.outcomes index tried)).attempted := by
      simp [Attempts.record, Attempts.none, map_fst_outcomes]
    simp only [declared, Bool.false_eq_true, if_false, run, lookedAfter, ← attempted]
    refine ⟨_, _, rfl, ?_⟩
    constructor
    · exact shortest
    · intro earlier file later split
      exact (split ▸ pending).afterFiles.pending file List.mem_cons_self
    · rfl
    · simp [Attempts.record, Attempts.none]
    · exact (afterFiles_mergedOf index tried).symm
    · simp [Attempts.record, Attempts.none]
    · exact foundAfter
    · rintro ⟨file, candidate, defines⟩
      rw [← agrees]
      -- Either the search has stopped at a definition, or it has come to this file as well.
      rcases shortest.stopped with defined | all
      · exact defined
      · exact search.isDefined_afterFiles wellFormed (all ▸ candidate) defines

section Example

/-- Four files that mention `g`. -/
private def fourSources : FileSystem :=
  [⟨"/w/a.cpp"⟩, ⟨"/w/b.cpp"⟩, ⟨"/w/c.cpp"⟩, ⟨"/w/d.cpp"⟩].foldl
    (fun files path => files.addFile path [103]) (.empty ⟨"/w"⟩)

private def observationOf (file : Path) (isDefinition : Bool) : SymbolFact :=
  ⟨.function, [], "g", "g()", "void", isDefinition, file, file⟩

/-- `a.cpp` declares `g()`, the analysis of `b.cpp` fails, and the other files define `g()`. -/
private def fourSourceTools : Toolchain where
  files := fourSources
  analyze path _ :=
    if path = ⟨"/w/b.cpp"⟩ then .error (.analysisFailed path [])
    else .ok ⟨path, [.callable (observationOf path (path ≠ ⟨"/w/a.cpp"⟩))], []⟩
  systemDirectories _ := []

private def searchInFour : DefinitionSearch where
  tools := fourSourceTools
  catalog := .ofEntries fourSources ⟨"/w"⟩
    [(⟨"a.cpp"⟩, []), (⟨"b.cpp"⟩, []), (⟨"c.cpp"⟩, []), (⟨"d.cpp"⟩, [])]
  keepSystem := false

private def declaredInFirst : Index :=
  .run ⟨none⟩ [⟨fourSourceTools.toWorkspace, [], ⟨"/w/a.cpp"⟩, []⟩]

/-- The first candidate fails, the second has the definition, and the third is left alone. -/
theorem resolveInPlace_past_failure :
    declaredInFirst.Reachable ∧ searchInFour.catalog.Built fourSources ∧ fourSources.WellNamed ∧
      declaredInFirst.find? ⟨"g()"⟩ =
        some ((observationOf ⟨"/w/a.cpp"⟩ false).toCallable ⟨none⟩) ∧
      ∃ resolution after,
        (searchInFour.resolveInPlace ⟨"g()"⟩).run declaredInFirst = .ok resolution after ∧
        resolution.attempted = [⟨"/w/b.cpp"⟩, ⟨"/w/c.cpp"⟩] ∧
        resolution.failures.map CandidateFailure.file = [⟨"/w/b.cpp"⟩] ∧
        after = searchInFour.afterFiles declaredInFirst [⟨"/w/c.cpp"⟩] ∧
        resolution.callable.isDefinition = true := by
  have reachable : declaredInFirst.Reachable := ⟨_, _, rfl⟩
  have built : searchInFour.catalog.Built fourSources := .ofEntries _ _
  have wellNamed : fourSources.WellNamed := FileSystem.wellNamed_empty ⟨"/w"⟩
  have found : declaredInFirst.find? ⟨"g()"⟩ =
      some ((observationOf ⟨"/w/a.cpp"⟩ false).toCallable ⟨none⟩) := by decide +kernel
  obtain ⟨resolution, after, searched, exact⟩ :=
    (searchInFour.resolveInPlace_exact reachable built wellNamed found).2 rfl
  have candidates : searchInFour.candidates declaredInFirst
      ((observationOf ⟨"/w/a.cpp"⟩ false).toCallable ⟨none⟩) =
        [⟨"/w/b.cpp"⟩, ⟨"/w/c.cpp"⟩, ⟨"/w/d.cpp"⟩] := by
    -- All of them are equally close to the declaration, so they stand in order already.
    rw [DefinitionSearch.candidates, List.mergeSort_of_pairwise (by decide +kernel)]
    decide +kernel
  have shortest : searchInFour.Shortest declaredInFirst ⟨"g()"⟩
      [⟨"/w/b.cpp"⟩, ⟨"/w/c.cpp"⟩, ⟨"/w/d.cpp"⟩] [⟨"/w/b.cpp"⟩, ⟨"/w/c.cpp"⟩] :=
    .cons (by decide +kernel) (.here (by decide +kernel) (by decide +kernel))
  have attempted := exact.attempted.unique (candidates ▸ shortest)
  have failures := exact.failures
  have merged := exact.after_merged
  rw [attempted] at failures merged
  refine ⟨reachable, built, wellNamed, found, resolution, after, searched, attempted, ?_, ?_, ?_⟩
  · rw [failures]
    decide +kernel
  · rw [merged]
    congr 1
  · refine exact.complete ⟨⟨"/w/c.cpp"⟩, ?_, ?_⟩
    · simp [candidates]
    · exact ⟨⟨"/w/c.cpp"⟩, _, by decide +kernel, rfl, _, List.mem_singleton_self _, rfl, rfl, rfl⟩

end Example

end DefinitionSearch

end CallGraph
