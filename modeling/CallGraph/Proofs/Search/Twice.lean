import CallGraph.Proofs.Search.Exact
import CallGraph.Proofs.Search.Ranking
import CallGraph.Proofs.Search.Settled

/-!
# Searching twice

Main result: `resolveInPlace_twice`. A second search for the same definition changes nothing. If
the first has found it, the second tries no file; otherwise it tries the files that failed, in the
order in which they did, and they fail for the same reasons.

A search in vain tries all of its candidates. Whether one of them fails does not depend on the
graph, and those that do not have been ingested when the second search begins, so the failing ones
are what is left. The record of the declaration is the same by then, and a ranking orders some files
in one way only, so they are left in their order.
-/
namespace CallGraph

theorem any_same_addPath_iff {paths : List Path} {path other : Path} :
    (addPath paths path).any other.same = true ↔
      paths.any other.same = true ∨ other.same path = true := by
  unfold addPath
  split
  · rename_i listed
    refine ⟨.inl, fun known => known.elim id fun same => ?_⟩
    obtain ⟨old, member, sameOld⟩ := List.any_eq_true.mp listed
    rw [Path.same_iff] at same sameOld
    exact List.any_eq_true.mpr ⟨old, member, Path.same_iff.mpr (same.trans sameOld)⟩
  · simp

namespace DefinitionSearch

variable {search : DefinitionSearch} {index after : Index} {file : Path} {files : List Path}

/-! ### Failures -/

/-- Why a file cannot be ingested, if it cannot. -/
def error? (search : DefinitionSearch) (file : Path) : Option Error :=
  match search.tools.files.canonical? file with
  | none => some (.sourceNotFound file)
  | some path =>
    match search.tools.analyze path (search.argumentsOf file) with
    | .error error => some error
    | .ok _ => none

def failure? (search : DefinitionSearch) (file : Path) : Option CandidateFailure :=
  (search.error? file).map fun error => ⟨file, error.kind, error.message⟩

/-- A file fails in every graph, and for the same reason, or in none. -/
theorem ingest_cases (search : DefinitionSearch) (index : Index) (file : Path) :
    (∃ error, search.error? file = some error ∧ search.ingest index file = .error error) ∨
      (search.error? file = none ∧
        ∃ after report, search.ingest index file = .ok (after, report)) := by
  unfold error? ingest Index.ingest Index.ingestExcluding
  cases search.tools.files.canonical? file with
  | none => exact .inl ⟨_, rfl, rfl⟩
  | some path =>
    dsimp only
    cases search.tools.analyze path (search.argumentsOf file) with
    | error error => exact .inl ⟨error, rfl, rfl⟩
    | ok unit => exact .inr ⟨rfl, _, _, rfl⟩

theorem filterMap_failureOf_outcomes (search : DefinitionSearch) (index : Index)
    (files : List Path) :
    (search.outcomes index files).filterMap failureOf = files.filterMap search.failure? := by
  induction files generalizing index with
  | nil => rfl
  | cons file rest ih =>
    rcases search.ingest_cases index file with ⟨error, fails, failure⟩ | ⟨works, _, _, success⟩
    · have failed : failureOf (file, .error error) = some ⟨file, error.kind, error.message⟩ := rfl
      have told : search.failure? file = some ⟨file, error.kind, error.message⟩ := by
        rw [failure?, fails, Option.map_some]
      rw [outcomes_of_error failure, List.filterMap_cons_some failed,
        List.filterMap_cons_some told, ih]
    · have untold : search.failure? file = none := by rw [failure?, works, Option.map_none]
      rw [outcomes_of_ok success, List.filterMap_cons_none rfl, List.filterMap_cons_none untold, ih]

/-- The files that fail, in order. -/
def failing (search : DefinitionSearch) (files : List Path) : List Path :=
  files.filter fun file => (search.error? file).isSome

theorem map_file_failures (search : DefinitionSearch) (files : List Path) :
    (files.filterMap search.failure?).map CandidateFailure.file = search.failing files := by
  induction files with
  | nil => rfl
  | cons file rest ih =>
    rw [failing] at ih ⊢
    cases fails : search.error? file <;> simp [failure?, fails, ih]

theorem failures_failing (search : DefinitionSearch) (files : List Path) :
    (search.failing files).filterMap search.failure? = files.filterMap search.failure? := by
  induction files with
  | nil => rfl
  | cons file rest ih =>
    rw [failing] at ih ⊢
    cases fails : search.error? file <;> simp [failure?, fails, ih]

/-- Trying files that fail changes nothing and lists nothing. -/
theorem afterFiles_of_fails (index : Index)
    (fail : ∀ file ∈ files, (search.error? file).isSome) :
    search.afterFiles index files = index ∧
      (search.outcomes index files).flatMap listedBy = [] := by
  induction files with
  | nil => exact ⟨rfl, rfl⟩
  | cons file rest ih =>
    obtain ⟨same, unlisted⟩ := ih fun other member => fail other (List.mem_cons_of_mem _ member)
    obtain ⟨error, fails⟩ := Option.isSome_iff_exists.mp (fail file List.mem_cons_self)
    rcases search.ingest_cases index file with ⟨_, _, failure⟩ | ⟨works, _⟩
    · rw [afterFiles_of_error failure, outcomes_of_error failure, List.flatMap_cons, unlisted]
      exact ⟨same, rfl⟩
    · rw [works] at fails
      cases fails

/-! ### What is left to try -/

theorem isIngested_afterFile_iff {other : Path} :
    (search.afterFile index file).isIngested search.tools.files other = true ↔
      index.isIngested search.tools.files other = true ∨ search.error? file = none ∧
        (search.tools.files.canonical other).same (search.tools.files.canonical file) = true := by
  rcases search.ingest_cases index file with ⟨error, fails, failure⟩ | ⟨works, after, _, success⟩
  · simp [afterFile_of_error failure, fails]
  · rw [afterFile_of_ok success, Index.isIngested, Index.ingested_of_ingest success,
      any_same_addPath_iff, Index.isIngested]
    simp [works]

theorem isIngested_afterFiles_iff {other : Path} :
    (search.afterFiles index files).isIngested search.tools.files other = true ↔
      index.isIngested search.tools.files other = true ∨ ∃ file ∈ files, search.error? file = none ∧
        (search.tools.files.canonical other).same (search.tools.files.canonical file) = true := by
  induction files generalizing index with
  | nil => simp [afterFiles]
  | cons file rest ih =>
    rw [afterFiles, List.foldl_cons, ← afterFiles, ih, isIngested_afterFile_iff, or_assoc,
      List.exists_mem_cons_iff]

/-- Once they have been tried, files are still pending if they fail. -/
theorem Pending.left_iff (pending : search.Pending index files) (member : file ∈ files) :
    (search.afterFiles index files).isIngested search.tools.files file = false ↔
      (search.error? file).isSome := by
  rw [← not_iff_not, Bool.not_eq_false, isIngested_afterFiles_iff, Bool.not_eq_true,
    Option.isSome_eq_false_iff, Option.isNone_iff_eq_none]
  have place {path : Path} (listed : path ∈ files) : search.tools.files.canonical path = path := by
    rw [FileSystem.canonical, pending.canonical path listed, Option.getD_some]
  constructor
  · rintro (ingested | ⟨other, listed, works, same⟩)
    · rw [pending.pending file member] at ingested
      cases ingested
    · -- No other file of the list has the same canonical path.
      rw [place member, place listed, Path.same_iff] at same
      rw [List.inj_on_of_nodup_map pending.distinct member listed same, works]
  · intro works
    exact .inr ⟨file, member, works, Path.same_iff.mpr rfl⟩

/-- The candidates of a search in vain are the candidates afterwards as far as they fail. -/
theorem candidates_afterFiles (built : search.catalog.Built search.tools.files)
    (wellNamed : search.tools.files.WellNamed) (index : Index) (target : Callable) :
    search.candidates (search.afterFiles index (search.candidates index target)) target =
      search.failing (search.candidates index target) := by
  have pending := search.pending_candidates built wellNamed index target
  have distinct := built.distinct
  have ranked := pairwise_candidates distinct
  -- Both are ranked in the same way, so it is enough that they have the same members.
  refine List.Perm.eq_of_pairwise (fun left right _ _ forth back => ?_) (ranked _ target)
    ((ranked index target).filter _) ?_
  · exact absurd back (forth.asymm distinct.nodup)
  · refine (List.perm_ext_iff_of_nodup (distinct_candidates distinct _ _).nodup
      ((distinct_candidates distinct index target).nodup.filter _)).mpr fun file => ?_
    rw [List.mem_filter]
    constructor
    · intro again
      obtain ⟨listed, mentioned, left⟩ := mem_candidates_iff.mp again
      have fresh : index.isIngested search.tools.files file = false := by
        by_contra ingested
        rw [isIngested_afterFiles_iff.mpr (.inl (by simpa using ingested))] at left
        cases left
      have member := mem_candidates_iff.mpr ⟨listed, mentioned, fresh⟩
      exact ⟨member, (pending.left_iff member).mp left⟩
    · rintro ⟨member, fails⟩
      obtain ⟨listed, mentioned, _⟩ := mem_candidates_iff.mp member
      exact mem_candidates_iff.mpr ⟨listed, mentioned, (pending.left_iff member).mpr fails⟩

/-! ### Two searches -/

theorem run_resolveInPlace_defined (search : DefinitionSearch) {id : CallableId}
    {target : Callable} (found : index.find? id = some target)
    (defined : target.isDefinition = true) :
    (search.resolveInPlace id).run index = .ok ⟨target, [], [], []⟩ index := by
  rw [run_resolveInPlace, Index.lookup, found]
  exact if_pos defined

/-- A search for a declaration tries its candidates until one of them defines it. -/
theorem run_resolveInPlace_declared (wellFormed : WellFormed index.nodes) {id : CallableId}
    {target : Callable} (found : index.find? id = some target)
    (declared : target.isDefinition = false)
    (pending : search.Pending index (search.candidates index target)) :
    ∃ tried record, search.Shortest index id (search.candidates index target) tried ∧
      (search.afterFiles index tried).find? id = some record ∧
      (search.resolveInPlace id).run index =
        .ok ⟨record, tried, tried.filterMap search.failure?,
          (search.outcomes index tried).flatMap listedBy⟩ (search.afterFiles index tried) := by
  have known := Index.mem_ids_of_find? found
  have undefined : index.isDefined id = false := by
    rw [Index.isDefined, found, Option.any_some, declared]
  obtain ⟨tried, shortest, run⟩ := run_tryFiles_shortest .none wellFormed known undefined pending
  have grown := search.extends_afterFiles wellFormed tried
  obtain ⟨record, foundAfter⟩ := Index.mem_ids_iff.mp (grown.ids.subset known)
  refine ⟨tried, record, shortest, foundAfter, ?_⟩
  have looked : index.lookup id = .ok target := by rw [Index.lookup, found]
  have lookedAfter : (search.afterFiles index tried).lookup id = .ok record := by
    rw [Index.lookup, foundAfter]
  rw [run_resolveInPlace, looked]
  simp only [declared, Bool.false_eq_true, if_false, run, lookedAfter]
  simp [Attempts.record, Attempts.none, map_fst_outcomes, filterMap_failureOf_outcomes]

/-- A search in vain leaves the record as it is and has tried all candidates. -/
theorem Shortest.exhausted (wellFormed : WellFormed index.nodes) {id : CallableId}
    {target record : Callable} {tried : List Path}
    (shortest : search.Shortest index id (search.candidates index target) tried)
    (found : index.find? id = some target)
    (foundAfter : (search.afterFiles index tried).find? id = some record)
    (unresolved : record.isDefinition = false) :
    record = target ∧ tried = search.candidates index target := by
  constructor
  · -- Only a definition can take the place of a declaration.
    obtain ⟨new, foundSame, stays⟩ :=
      Index.find?_stays (search.wellFormed_afterFiles wellFormed tried)
        (search.extends_afterFiles wellFormed tried) found
    obtain rfl : record = new := Option.some.inj (foundAfter.symm.trans foundSame)
    exact stays.resolve_left (by simp [unresolved])
  · refine shortest.stopped.resolve_left fun defined => ?_
    rw [Index.isDefined, foundAfter, Option.any_some, unresolved] at defined
    cases defined

/-- After a search in vain, another one tries the candidates that failed and changes nothing. -/
theorem run_resolveInPlace_again (built : search.catalog.Built search.tools.files)
    (wellNamed : search.tools.files.WellNamed) (wellFormed : WellFormed index.nodes)
    {id : CallableId} {target : Callable} (declared : target.isDefinition = false)
    (foundAfter : (search.afterFiles index (search.candidates index target)).find? id =
      some target) :
    let files := search.candidates index target
    (search.resolveInPlace id).run (search.afterFiles index files) =
      .ok ⟨target, search.failing files, files.filterMap search.failure?, []⟩
        (search.afterFiles index files) := by
  intro files
  have left : search.candidates (search.afterFiles index files) target = search.failing files :=
    candidates_afterFiles built wellNamed index target
  have later := search.wellFormed_afterFiles wellFormed files
  obtain ⟨tried, record, shortest, found, run⟩ :=
    run_resolveInPlace_declared later foundAfter declared
      (search.pending_candidates built wellNamed _ target)
  -- Whatever is tried fails again, so the graph stays as it is and the search does not stop early.
  have fail : ∀ file ∈ tried, (search.error? file).isSome := by
    intro file member
    have candidate := shortest.leads.subset member
    rw [left, failing, List.mem_filter] at candidate
    exact candidate.2
  obtain ⟨same, unlisted⟩ := afterFiles_of_fails (search.afterFiles index files) fail
  obtain rfl : record = target := by
    rw [same, foundAfter] at found
    exact (Option.some.inj found).symm
  obtain ⟨_, rfl⟩ := shortest.exhausted later foundAfter found declared
  rw [run, same, unlisted, left, search.failures_failing]

/-- Searching for the definition of a known callable again leaves the index as the first search
did and lists no callable. If the first search ended with a definition, the second tries no file;
otherwise it tries exactly those that failed in the first, in their order, and they fail again in the
same way. -/
theorem resolveInPlace_twice (search : DefinitionSearch) {index : Index}
    (reachable : index.Reachable) (built : search.catalog.Built search.tools.files)
    (wellNamed : search.tools.files.WellNamed) {id : CallableId} (known : id ∈ index.ids) :
    ∃ first after second,
      (search.resolveInPlace id).run index = .ok first after ∧
      (search.resolveInPlace id).run after = .ok second after ∧
      second.updated = [] ∧ second.callable = first.callable ∧
      (first.callable.isDefinition = true → second.attempted = [] ∧ second.failures = []) ∧
      (first.callable.isDefinition = false →
        second.attempted = first.failures.map CandidateFailure.file ∧
        second.failures = first.failures) := by
  have wellFormed := reachable.wellFormed
  obtain ⟨target, found⟩ := Index.mem_ids_iff.mp known
  cases declared : target.isDefinition with
  | true =>
    have run := search.run_resolveInPlace_defined found declared
    exact ⟨_, index, _, run, run, rfl, rfl, fun _ => ⟨rfl, rfl⟩, fun _ => ⟨rfl, rfl⟩⟩
  | false =>
    obtain ⟨tried, record, shortest, foundAfter, run⟩ :=
      run_resolveInPlace_declared wellFormed found declared
        (search.pending_candidates built wellNamed index target)
    cases unresolved : record.isDefinition with
    | true =>
      refine ⟨_, _, _, run, search.run_resolveInPlace_defined foundAfter unresolved, rfl, rfl,
        fun _ => ⟨rfl, rfl⟩, fun undefined => ?_⟩
      rw [unresolved] at undefined
      cases undefined
    | false =>
      obtain ⟨rfl, rfl⟩ := shortest.exhausted wellFormed found foundAfter unresolved
      refine ⟨_, _, _, run, run_resolveInPlace_again built wellNamed wellFormed declared foundAfter,
        rfl, rfl, fun defined => ?_, fun _ => ⟨(search.map_file_failures _).symm, rfl⟩⟩
      rw [unresolved] at defined
      cases defined

section Example

private def vainSources : FileSystem :=
  [⟨"/w/a.cpp"⟩, ⟨"/w/b.cpp"⟩, ⟨"/w/c.cpp"⟩, ⟨"/w/d.cpp"⟩].foldl
    (fun files path => files.addFile path [103]) (.empty ⟨"/w"⟩)

private def vainDeclaration (file : Path) : SymbolFact :=
  ⟨.function, [], "g", "g()", "void", false, file, file⟩

/-- `a.cpp` and `c.cpp` declare `g()`, and the analysis of the other files fails. -/
private def vainSearch : DefinitionSearch where
  tools := ⟨⟨vainSources, fun path _ =>
    if path ∈ [⟨"/w/b.cpp"⟩, ⟨"/w/d.cpp"⟩] then .error (.analysisFailed path [])
    else .ok ⟨path, [.callable (vainDeclaration path)], []⟩⟩, fun _ => []⟩
  catalog := .ofEntries vainSources ⟨"/w"⟩
    (["a.cpp", "b.cpp", "c.cpp", "d.cpp"].map fun file => (⟨file⟩, []))
  keepSystem := false

private def vainIndex : Index :=
  .run ⟨none⟩ [⟨vainSearch.tools.toWorkspace, [], ⟨"/w/a.cpp"⟩, []⟩]

/-- The first search comes past a file that fails, one that only declares `g()` and another that
fails. The second tries the two that fail. -/
theorem resolveInPlace_in_vain_twice :
    vainIndex.Reachable ∧ vainSearch.catalog.Built vainSearch.tools.files ∧
      vainSearch.tools.files.WellNamed ∧ (⟨"g()"⟩ : CallableId) ∈ vainIndex.ids ∧
      ∃ first after second,
        (vainSearch.resolveInPlace ⟨"g()"⟩).run vainIndex = .ok first after ∧
        (vainSearch.resolveInPlace ⟨"g()"⟩).run after = .ok second after ∧
        first.attempted = [⟨"/w/b.cpp"⟩, ⟨"/w/c.cpp"⟩, ⟨"/w/d.cpp"⟩] ∧
        second.attempted = [⟨"/w/b.cpp"⟩, ⟨"/w/d.cpp"⟩] ∧ second.failures = first.failures := by
  have reachable : vainIndex.Reachable := ⟨_, _, rfl⟩
  have built : vainSearch.catalog.Built vainSearch.tools.files := .ofEntries _ _
  have wellNamed : vainSearch.tools.files.WellNamed := FileSystem.wellNamed_empty ⟨"/w"⟩
  have known : (⟨"g()"⟩ : CallableId) ∈ vainIndex.ids := by decide +kernel
  obtain ⟨first, after, second, run, runAgain, _, _, _, again⟩ :=
    vainSearch.resolveInPlace_twice reachable built wellNamed known
  have found : vainIndex.find? ⟨"g()"⟩ =
      some ((vainDeclaration ⟨"/w/a.cpp"⟩).toCallable ⟨none⟩) := by decide +kernel
  obtain ⟨tried, record, shortest, foundAfter, sameRun⟩ :=
    run_resolveInPlace_declared reachable.wellFormed found rfl
      (vainSearch.pending_candidates built wellNamed _ _)
  have candidates : vainSearch.candidates vainIndex
      ((vainDeclaration ⟨"/w/a.cpp"⟩).toCallable ⟨none⟩) =
        [⟨"/w/b.cpp"⟩, ⟨"/w/c.cpp"⟩, ⟨"/w/d.cpp"⟩] := by
    rw [DefinitionSearch.candidates, List.mergeSort_of_pairwise (by decide +kernel)]
    decide +kernel
  have all : vainSearch.Shortest vainIndex ⟨"g()"⟩
      [⟨"/w/b.cpp"⟩, ⟨"/w/c.cpp"⟩, ⟨"/w/d.cpp"⟩] [⟨"/w/b.cpp"⟩, ⟨"/w/c.cpp"⟩, ⟨"/w/d.cpp"⟩] :=
    .cons (by decide +kernel) (.cons (by decide +kernel) (.cons (by decide +kernel) .nil))
  obtain rfl := (candidates ▸ shortest).unique all
  rw [run, EStateM.Result.ok.injEq] at sameRun
  obtain ⟨rfl, rfl⟩ := sameRun
  have undefined : record.isDefinition = false := by
    have notDefined : (vainSearch.afterFiles vainIndex
        [⟨"/w/b.cpp"⟩, ⟨"/w/c.cpp"⟩, ⟨"/w/d.cpp"⟩]).isDefined ⟨"g()"⟩ = false := by decide +kernel
    rwa [Index.isDefined, foundAfter, Option.any_some] at notDefined
  obtain ⟨attempted, failures⟩ := again undefined
  refine ⟨reachable, built, wellNamed, known, _, _, second, run, runAgain, rfl, ?_, failures⟩
  rw [attempted, map_file_failures]
  decide +kernel

end Example

end DefinitionSearch

end CallGraph
