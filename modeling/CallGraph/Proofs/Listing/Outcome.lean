import CallGraph.Proofs.Search.Twice
import CallGraph.Proofs.Traversal.Ending
import Mathlib.Order.Bounds.Basic

/-!
# How a listing ends

Main result: `listing_outcome`. A listing succeeds if and only if the entry point becomes a
definition before any file of the catalog fails. Everything that can go wrong goes wrong before the
first line: a file that fails is an error until then, and is passed over from then on.

Whether a file fails does not depend on the graph (`error?`), so what the first phase comes to can
be said of the list of files alone. For the second phase, all that is still to be written is known,
and nothing is ever forgotten, so no look-up fails.
-/
namespace CallGraph

namespace DefinitionSearch

variable {search : DefinitionSearch} {index after : Index} {id : CallableId} {file : Path}
  {files : List Path}

/-! ### Ingesting until a callable is defined -/

/-- Of some files, the first so many can all be ingested, and a callable is a definition then. -/
structure DefinedAfter (search : DefinitionSearch) (id : CallableId) (index : Index)
    (files : List Path) (count : Nat) : Prop where
  enough : count ≤ files.length
  works : ∀ file ∈ files.take count, search.error? file = none
  defined : (search.afterFiles index (files.take count)).isDefined id = true

theorem definedAfter_zero_iff :
    search.DefinedAfter id index files 0 ↔ index.isDefined id = true :=
  ⟨fun reached => reached.defined, fun defined => ⟨Nat.zero_le _, by simp, defined⟩⟩

theorem definedAfter_nil_iff {count : Nat} :
    search.DefinedAfter id index [] count ↔ count = 0 ∧ index.isDefined id = true := by
  constructor
  · intro reached
    obtain rfl : count = 0 := Nat.le_zero.mp reached.enough
    exact ⟨rfl, reached.defined⟩
  · rintro ⟨rfl, defined⟩
    exact definedAfter_zero_iff.mpr defined

theorem definedAfter_succ_iff {count : Nat} {rest : List Path} :
    search.DefinedAfter id index (file :: rest) (count + 1) ↔ search.error? file = none ∧
      search.DefinedAfter id (search.afterFile index file) rest count := by
  constructor
  · rintro ⟨enough, works, defined⟩
    rw [List.take_succ_cons, List.forall_mem_cons] at works
    exact ⟨works.1, Nat.le_of_succ_le_succ enough, works.2, defined⟩
  · rintro ⟨first, enough, works, defined⟩
    refine ⟨Nat.succ_le_succ enough, ?_, defined⟩
    rw [List.take_succ_cons, List.forall_mem_cons]
    exact ⟨first, works⟩

/-- If a callable becomes a definition before any file fails, ingesting ends as soon as it is one;
otherwise with the first file that fails, or with all of them and without a definition. -/
theorem ingestUntilDefined_cases (search : DefinitionSearch) (id : CallableId)
    (files : List Path) (index : Index) :
    (∃ count, IsLeast {count | search.DefinedAfter id index files count} count ∧
      search.ingestUntilDefined id files index =
        .ok (search.afterFiles index (files.take count))) ∨
    (∀ count, ¬search.DefinedAfter id index files count) ∧
      ((∃ error, files.findSome? search.error? = some error ∧
        search.ingestUntilDefined id files index = .error error) ∨
      (files.findSome? search.error? = none ∧
        (search.afterFiles index files).isDefined id = false ∧
        search.ingestUntilDefined id files index = .ok (search.afterFiles index files))) := by
  induction files generalizing index with
  | nil =>
    by_cases defined : index.isDefined id = true
    · exact .inl ⟨0, ⟨definedAfter_zero_iff.mpr defined, fun _ _ => Nat.zero_le _⟩, rfl⟩
    · refine .inr ⟨fun count reached => defined (definedAfter_nil_iff.mp reached).2, .inr ?_⟩
      exact ⟨rfl, Bool.eq_false_of_not_eq_true defined, rfl⟩
  | cons file rest ih =>
    rw [ingestUntilDefined]
    by_cases defined : index.isDefined id = true
    · rw [if_pos defined]
      exact .inl ⟨0, ⟨definedAfter_zero_iff.mpr defined, fun _ _ => Nat.zero_le _⟩, rfl⟩
    · rw [if_neg defined]
      -- No file is too few, so any number that is enough is one more than for the rest.
      have further {count : Nat} (reached : search.DefinedAfter id index (file :: rest) count) :
          ∃ fewer, count = fewer + 1 ∧ search.error? file = none ∧
            search.DefinedAfter id (search.afterFile index file) rest fewer := by
        cases count with
        | zero => exact absurd (definedAfter_zero_iff.mp reached) defined
        | succ fewer => exact ⟨fewer, rfl, definedAfter_succ_iff.mp reached⟩
      rcases search.ingest_cases index file with ⟨error, fails, failure⟩ |
        ⟨works, grown, report, success⟩
      · rw [failure]
        refine .inr ⟨fun count reached => ?_, .inl ⟨error, ?_, rfl⟩⟩
        · obtain ⟨_, _, works, _⟩ := further reached
          rw [works] at fails
          cases fails
        · rw [List.findSome?_cons, fails]
      · have same := afterFile_of_ok success
        rw [success, List.findSome?_cons, works, afterFiles_of_ok success]
        refine (ih grown).imp ?_ (And.imp_left fun never count reached => ?_)
        · rintro ⟨count, ⟨reached, least⟩, run⟩
          refine ⟨count + 1, ⟨definedAfter_succ_iff.mpr ⟨works, same ▸ reached⟩, ?_⟩, ?_⟩
          · intro other reachedToo
            obtain ⟨fewer, rfl, _, reachedRest⟩ := further reachedToo
            exact Nat.succ_le_succ (least (same ▸ reachedRest))
          · rw [List.take_succ_cons, afterFiles_of_ok success]
            exact run
        · obtain ⟨fewer, _, _, reachedRest⟩ := further reached
          exact never fewer (same ▸ reachedRest)

/-! ### Searching while lines are written -/

/-- What fails might as well not be tried. -/
theorem afterFiles_working (search : DefinitionSearch) (index : Index) (files : List Path) :
    search.afterFiles index (files.filter fun file => (search.error? file).isNone) =
      search.afterFiles index files := by
  induction files generalizing index with
  | nil => rfl
  | cons file rest ih =>
    rcases search.ingest_cases index file with ⟨error, fails, failure⟩ | ⟨works, _, _, success⟩
    · rw [List.filter_cons_of_neg (by simp [fails]), ih, afterFiles_of_error failure]
    · rw [List.filter_cons_of_pos (by simp [works]), afterFiles_of_ok success,
        afterFiles_of_ok success, ih]

/-- What a search has come to is the outcome of the files that it has not passed over. -/
theorem outcomes_of_tryFiles {attempts done : Attempts}
    (tried : (search.tryFiles id files attempts).run index = .ok done after) :
    ∃ attempted, done = attempts.record (search.outcomes index attempted) ∧
      after = search.afterFiles index attempted := by
  induction files generalizing index attempts with
  | nil =>
    rw [tryFiles, EStateM.run_pure, EStateM.Result.ok.injEq] at tried
    obtain ⟨rfl, rfl⟩ := tried
    exact ⟨[], by simp [Attempts.record, outcomes], rfl⟩
  | cons file rest ih =>
    rw [run_tryFiles_cons] at tried
    split at tried
    · exact ih tried
    · split at tried
      · rename_i error failure
        obtain ⟨attempted, rfl, rfl⟩ := ih tried
        exact ⟨file :: attempted, by rw [Attempts.record_fail, outcomes_of_error failure],
          (afterFiles_of_error failure attempted).symm⟩
      · rename_i grown report success
        split at tried
        · cases tried
        · split at tried
          · cases tried
            refine ⟨[file], ?_, (afterFiles_of_ok success []).symm⟩
            rw [outcomes_of_ok success, ← Attempts.record_merge]
            simp [Attempts.record, outcomes]
          · obtain ⟨attempted, rfl, rfl⟩ := ih tried
            exact ⟨file :: attempted, by rw [Attempts.record_merge, outcomes_of_ok success],
              (afterFiles_of_ok success attempted).symm⟩

/-- A search changes the graph by the files that work, and it has failed with the others. -/
theorem afterFiles_of_resolve {resolution : Resolution}
    (success : search.resolve index id = .ok (after, resolution)) :
    after = search.afterFiles index
        (resolution.attempted.filter fun file => (search.error? file).isNone) ∧
      resolution.failures = resolution.attempted.filterMap search.failure? := by
  rw [afterFiles_working]
  unfold resolve at success
  rw [run_resolveInPlace] at success
  split at success
  · rename_i result reached searched
    cases success
    split at searched
    · cases searched
    · split at searched
      · cases searched
        exact ⟨rfl, rfl⟩
      · split at searched
        · cases searched
        · rename_i attempts grown tried
          obtain ⟨attempted, rfl, rfl⟩ := outcomes_of_tryFiles tried
          split at searched
          · cases searched
          · cases searched
            simp [Attempts.record, Attempts.none, map_fst_outcomes, filterMap_failureOf_outcomes]
  · cases success

/-- A line is followed from a graph without an error: its callable is known, and if it is only
declared, files are tried for it, of which the ones that fail make no difference. -/
structure FollowedFrom (search : DefinitionSearch) (index : Index) (line : ListingLine)
    (callable : Callable) : Prop where
  lookup : index.lookup line.id = .ok callable
  definition : callable.isDefinition = true → search.visit index line = index
  declaration : callable.isDefinition = false → ∃ resolution,
    search.resolve index line.id = .ok (search.visit index line, resolution) ∧
    search.visit index line = search.afterFiles index
      (resolution.attempted.filter fun file => (search.error? file).isNone) ∧
    resolution.failures = resolution.attempted.filterMap search.failure?
  callees_known : ∀ callee ∈ (search.visit index line).calleeIds line.id,
    callee ∈ (search.visit index line).ids

theorem followedFrom_of_define (wellFormed : WellFormed index.nodes) {line : ListingLine}
    {callable : Callable} (new : line.id ∉ line.trail)
    (found : index.find? line.id = some callable)
    (defined : search.define index callable = .ok after) :
    search.FollowedFrom index line callable := by
  have visited : search.visit index line = after := visit_of_define new found defined
  obtain ⟨_, same⟩ := (Index.find?_eq_some_iff wellFormed).mp found
  have later : WellFormed after.nodes := by
    obtain ⟨⟨_, ingests⟩, _⟩ := settled_of_define wellFormed found defined
    exact ingests.wellFormed wellFormed
  constructor
  · rw [Index.lookup, found]
  · intro isDefinition
    rw [define, if_pos isDefinition] at defined
    cases defined
    exact visited
  · intro isDeclaration
    rw [define, isDeclaration, if_neg Bool.false_ne_true, same] at defined
    obtain ⟨⟨_, resolution⟩, resolved, rfl⟩ := exists_of_map_eq_ok defined
    rw [visited]
    exact ⟨resolution, resolved, afterFiles_of_resolve resolved⟩
  · rw [visited]
    exact fun callee called => Index.callee_known later called

/-- All lines of a listing that are not cut are followed without an error. -/
theorem followedFrom_of_list {last : Index} {agenda before later : List ListingLine}
    {line : ListingLine} (wellFormed : WellFormed index.nodes)
    (descending : ListingLine.Descending agenda)
    (listed : search.list index agenda = .ok (last, before ++ line :: later))
    (new : line.id ∉ line.trail) :
    ∃ callable, search.FollowedFrom (before.foldl search.visit index) line callable := by
  obtain ⟨rest, _, listedAt⟩ := list_at descending listed
  obtain ⟨_, earlier⟩ := search.ingests_foldl_visit wellFormed before
  rw [list, dif_neg new] at listedAt
  split at listedAt
  · cases listedAt
  · rename_i callable found
    split at listedAt
    · cases listedAt
    · rename_i grown defined
      exact ⟨callable, followedFrom_of_define (earlier.wellFormed wellFormed) new found defined⟩

end DefinitionSearch

open DefinitionSearch

namespace ListingRequest

variable {request : ListingRequest} {tools : Toolchain} {catalog : Catalog}

theorem text_of_opened
    (opened : Catalog.ofPath tools.files request.source request.extraArguments = .ok catalog) :
    request.text tools = (request.linesIn tools catalog).map fun (_, lines) =>
      String.join (lines.map ListingLine.render) := by
  rw [text, lines, opened]

/-- From the least number of files after which the entry point is defined, the listing goes on. -/
theorem linesIn_of_isLeast {count : Nat}
    (least : IsLeast {count | DefinedAfter ⟨tools, catalog, request.keepSystem⟩ request.entry
      (.empty (request.root catalog)) catalog.paths count} count) :
    let search : DefinitionSearch := ⟨tools, catalog, request.keepSystem⟩
    let none := Index.empty (request.root catalog)
    let start := search.afterFiles none (catalog.paths.take count)
    search.ingestUntilDefined request.entry catalog.paths none = .ok start ∧
    ∃ last lines, search.list start [⟨[], request.entry⟩] = .ok (last, lines) ∧
      request.linesIn tools catalog = .ok (last, lines) := by
  intro search none start
  rcases search.ingestUntilDefined_cases request.entry catalog.paths none with
    ⟨other, leastToo, run⟩ | ⟨never, _⟩
  · rw [leastToo.unique least] at run
    have wellFormed : WellFormed start.nodes := search.wellFormed_afterFiles .nil _
    have defined : start.isDefined request.entry = true := least.1.defined
    obtain ⟨row, found, _⟩ := Index.isDefined_iff.mp defined
    have known : request.entry ∈ start.ids := by
      rw [Index.mem_ids_iff, Index.find?_eq_row?, found]
      exact ⟨_, rfl⟩
    obtain ⟨⟨last, lines, listed, _⟩, _⟩ := search.list_ends wellFormed known
    exact ⟨run, last, lines, listed, linesIn_eq_ok_iff.mpr ⟨start, run, defined, listed⟩⟩
  · exact absurd least.1 (never count)

/-- An error while files are ingested for the entry point is that of the listing. -/
theorem linesIn_of_ingest_error {error : Error}
    (failure : ingestUntilDefined ⟨tools, catalog, request.keepSystem⟩ request.entry catalog.paths
      (.empty (request.root catalog)) = .error error) :
    request.linesIn tools catalog = .error (.ofError error) := by
  simp only [linesIn, root] at failure ⊢
  generalize ingestUntilDefined _ _ _ _ = ingested at failure ⊢
  rw [failure]

/-- An entry point that is no definition in the end is only declared, or not known. -/
theorem linesIn_of_undefined {all : Index}
    (success : ingestUntilDefined ⟨tools, catalog, request.keepSystem⟩ request.entry catalog.paths
      (.empty (request.root catalog)) = .ok all)
    (undefined : all.isDefined request.entry = false) :
    (request.entry ∈ all.ids → request.linesIn tools catalog = .error (.badRequest
      s!"No definition of {request.entry.text} in {request.source.text}")) ∧
    (request.entry ∉ all.ids → request.linesIn tools catalog = .error (.badRequest
      s!"Entry point {request.entry.text} not found in {request.source.text}")) := by
  simp only [linesIn, root] at success ⊢
  generalize ingestUntilDefined _ _ _ _ = ingested at success ⊢
  rw [success]
  constructor
  · intro known
    obtain ⟨callable, found⟩ := Index.mem_ids_iff.mp known
    rw [Index.isDefined, found, Option.any_some] at undefined
    simp [found, undefined]
  · intro unknown
    simp [Index.find?_eq_none_iff.mpr unknown]

end ListingRequest

/-- Let a catalog be given, and consider how many of its files have to be ingested until the entry
point is a definition, none of them failing. A listing succeeds if and only if there is such a
number. Exactly the least number of files is ingested before the first line is written, and nothing
can fail from then on: the callables on all lines are known, and a file that fails in the search for
a definition is passed over. If there is no such number, the listing fails with the error of the
first file that does, or because the entry point is only declared or not known after all files. -/
theorem listing_outcome (request : ListingRequest) (tools : Toolchain) {catalog : Catalog}
    (opened : Catalog.ofPath tools.files request.source request.extraArguments = .ok catalog) :
    let search : DefinitionSearch := ⟨tools, catalog, request.keepSystem⟩
    let none := Index.empty (request.root catalog)
    let enough := {count | search.DefinedAfter request.entry none catalog.paths count}
    ((∃ text, request.text tools = .ok text) ↔ ∃ count, IsLeast enough count) ∧
    (∀ count, IsLeast enough count →
      let start := search.afterFiles none (catalog.paths.take count)
      search.ingestUntilDefined request.entry catalog.paths none = .ok start ∧
      ∃ last lines, search.list start [⟨[], request.entry⟩] = .ok (last, lines) ∧
        request.text tools = .ok (String.join (lines.map ListingLine.render)) ∧
        ∀ before line later, lines = before ++ line :: later → line.id ∉ line.trail →
          ∃ callable, search.FollowedFrom (before.foldl search.visit start) line callable) ∧
    ((∀ count, count ∉ enough) →
      let all := search.afterFiles none catalog.paths
      (∀ error, catalog.paths.findSome? search.error? = some error →
        request.text tools = .error (.ofError error)) ∧
      (catalog.paths.findSome? search.error? = .none →
        (request.entry ∈ all.ids → request.text tools = .error (.badRequest
          s!"No definition of {request.entry.text} in {request.source.text}")) ∧
        (request.entry ∉ all.ids → request.text tools = .error (.badRequest
          s!"Entry point {request.entry.text} not found in {request.source.text}")))) := by
  intro search none enough
  have outcome := search.ingestUntilDefined_cases request.entry catalog.paths none
  rw [ListingRequest.text_of_opened opened]
  refine ⟨⟨?_, ?_⟩, ?_, ?_⟩
  · rintro ⟨text, success⟩
    obtain ⟨⟨last, lines⟩, listed, rfl⟩ := exists_of_map_eq_ok success
    obtain ⟨start, ingested, defined, _⟩ := ListingRequest.linesIn_eq_ok_iff.mp listed
    rcases outcome with ⟨count, least, _⟩ | ⟨_, ⟨error, _, run⟩ | ⟨_, undefined, run⟩⟩
    · exact ⟨count, least⟩
    · cases run.symm.trans ingested
    · obtain rfl := Except.ok.inj (run.symm.trans ingested)
      rw [defined] at undefined
      cases undefined
  · rintro ⟨count, least⟩
    obtain ⟨_, last, lines, _, success⟩ := ListingRequest.linesIn_of_isLeast least
    exact ⟨_, by rw [success]; rfl⟩
  · intro count least start
    obtain ⟨run, last, lines, listed, success⟩ := ListingRequest.linesIn_of_isLeast least
    refine ⟨run, last, lines, listed, by rw [success]; rfl, ?_⟩
    rintro before line later rfl new
    have wellFormed : WellFormed start.nodes := search.wellFormed_afterFiles .nil _
    exact followedFrom_of_list wellFormed (List.pairwise_singleton _ _) listed new
  · intro never all
    rcases outcome with
      ⟨count, ⟨reached, _⟩, _⟩ | ⟨_, ⟨error, first, run⟩ | ⟨works, undefined, run⟩⟩
    · exact absurd reached (never count)
    · rw [ListingRequest.linesIn_of_ingest_error run, first]
      refine ⟨fun other same => ?_, fun works => ?_⟩
      · cases same
        rfl
      · cases works
    · obtain ⟨declared, unknown⟩ := ListingRequest.linesIn_of_undefined run undefined
      rw [works]
      refine ⟨fun error first => ?_, fun _ => ⟨fun known => ?_, fun missing => ?_⟩⟩
      · cases first
      · rw [declared known]
        rfl
      · rw [unknown missing]
        rfl

section Example

private def brokenFiles : FileSystem :=
  [(⟨"/w/a.cpp"⟩, "run"), (⟨"/w/b.cpp"⟩, "run step"), (⟨"/w/c.cpp"⟩, "step"),
    (⟨"/w/db.json"⟩,
      "[[\"a.cpp\",null,null,[]],[\"b.cpp\",null,null,[]],[\"c.cpp\",null,null,[]]]")].foldl
    (fun files (path, text) => files.addFile path (Utf8.encode text)) (.empty ⟨"/w"⟩)

private def brokenFact (file : Path) (name : String) (isDefinition : Bool) : Fact :=
  .callable ⟨.function, [], name, name ++ "()", "void", isDefinition, file, file⟩

/-- In `a.cpp`, `run()` is declared. In `b.cpp` it is defined and calls `step()`, which is only
declared. The analysis of `c.cpp`, which mentions `step`, fails. -/
private def brokenTools : Toolchain where
  files := brokenFiles
  analyze path _ :=
    if path = ⟨"/w/a.cpp"⟩ then .ok ⟨path, [brokenFact path "run" false], []⟩
    else if path = ⟨"/w/b.cpp"⟩ then
      .ok ⟨path, [brokenFact path "step" false, brokenFact path "run" true,
        .call ⟨"run()"⟩ ⟨"step()"⟩], []⟩
    else .error (.analysisFailed path [])
  systemDirectories _ := []

private def brokenRequest (entry : String) : ListingRequest where
  entry := ⟨entry⟩
  source := ⟨"db.json"⟩
  keepSystem := false
  extraArguments := []
  displayRoot? := none

private def brokenCatalog : Catalog :=
  ⟨⟨"/w/db.json"⟩, [(⟨"/w/a.cpp"⟩, []), (⟨"/w/b.cpp"⟩, []), (⟨"/w/c.cpp"⟩, [])]⟩

private def brokenSearch : DefinitionSearch := ⟨brokenTools, brokenCatalog, false⟩

private def brokenStart : Index := .empty brokenCatalog.displayRoot

private theorem broken_opened (entry : String) :
    Catalog.ofPath brokenTools.files (brokenRequest entry).source
      (brokenRequest entry).extraArguments = .ok brokenCatalog := by
  have parts : (Catalog.ofPath brokenTools.files ⟨"db.json"⟩ []).toOption.map
      (fun catalog => (catalog.source, catalog.entries)) =
        some (brokenCatalog.source, brokenCatalog.entries) := by decide +kernel
  change Catalog.ofPath brokenTools.files ⟨"db.json"⟩ [] = .ok brokenCatalog
  cases opened : Catalog.ofPath brokenTools.files ⟨"db.json"⟩ [] with
  | error error =>
    rw [opened] at parts
    cases parts
  | ok catalog =>
    rw [opened] at parts
    cases catalog
    cases parts
    rfl

private theorem run_least :
    IsLeast {count | brokenSearch.DefinedAfter ⟨"run()"⟩ brokenStart brokenCatalog.paths count}
      2 := by
  refine ⟨⟨by decide, by decide +kernel, by decide +kernel⟩, fun count reached => ?_⟩
  by_contra fewer
  have undefined : ∀ count < 2, (brokenSearch.afterFiles brokenStart
    (brokenCatalog.paths.take count)).isDefined ⟨"run()"⟩ = false := by decide +kernel
  have defined := DefinedAfter.defined reached
  rw [undefined count (Nat.lt_of_not_le fewer)] at defined
  cases defined

private theorem step_never (count : Nat) :
    ¬brokenSearch.DefinedAfter ⟨"step()"⟩ brokenStart brokenCatalog.paths count := by
  intro reached
  have undefined : ∀ count < 4, (brokenSearch.afterFiles brokenStart
    (brokenCatalog.paths.take count)).isDefined ⟨"step()"⟩ = false := by decide +kernel
  have defined := reached.defined
  rw [undefined count (Nat.lt_succ_of_le reached.enough)] at defined
  cases defined

private theorem run_listed :
    let start := brokenSearch.afterFiles brokenStart (brokenCatalog.paths.take 2)
    brokenSearch.list start [⟨[], ⟨"run()"⟩⟩] =
      .ok (start, [⟨[], ⟨"run()"⟩⟩, ⟨[⟨"run()"⟩], ⟨"step()"⟩⟩]) := by
  intro start
  refine list_found start [⟨[⟨"run()"⟩], ⟨"step()"⟩⟩]
    (by decide +kernel) (by decide +kernel) (by decide +kernel) ?_
  refine list_found start [] (by decide +kernel) (by decide +kernel) (by decide +kernel) ?_
  exact list_nil

/-- The file that fails is passed over in the listing below `run()`, and it is the error of the one
below `step()`. -/
theorem listing_outcome_of_broken_file :
    Catalog.ofPath brokenTools.files (brokenRequest "run()").source
        (brokenRequest "run()").extraArguments = .ok brokenCatalog ∧
      Catalog.ofPath brokenTools.files (brokenRequest "step()").source
        (brokenRequest "step()").extraArguments = .ok brokenCatalog ∧
      (brokenRequest "run()").text brokenTools = .ok "run()\n  step()\n" ∧
      (brokenRequest "step()").text brokenTools =
        .error (.ofError (.analysisFailed ⟨"/w/c.cpp"⟩ [])) := by
  obtain ⟨_, written, _⟩ := listing_outcome (brokenRequest "run()") brokenTools (broken_opened _)
  obtain ⟨_, _, failed⟩ := listing_outcome (brokenRequest "step()") brokenTools (broken_opened _)
  obtain ⟨_, last, lines, listed, text, _⟩ := written 2 run_least
  obtain ⟨error, _⟩ := failed step_never
  refine ⟨broken_opened _, broken_opened _, ?_, error _ (by decide +kernel)⟩
  rw [text]
  cases run_listed.symm.trans listed
  decide +kernel

end Example

end CallGraph
