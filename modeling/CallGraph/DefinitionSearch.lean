import CallGraph.Index.InPlace
import CallGraph.Index.Pending

/-!
# Definition search

Looking for the definition of a callable that is only declared. The files of a catalog that have
not been ingested and mention the callable's spelling are ingested, those closest to where the
declaration was seen first, until one of them defines it. That a file mentions a spelling is no
proof that it defines the callable, so a search may ingest files in vain.
-/
namespace CallGraph

/-- How many leading steps two paths share, the root not counted. -/
def sharedSteps (reference candidate : Path) : Nat :=
  (DisplayRoot.commonLead reference.components candidate.components).countP (· ≠ .root)

/-- Whether a file holds a spelling. An empty file holds none, not even the empty one. -/
def mentions (files : FileSystem) (spelling : String) (file : Path) : Bool :=
  match files.read file with
  | .ok bytes => bytes ≠ [] && Text.occursIn (Utf8.encode spelling) bytes
  | .error _ => false

structure CandidateFailure where
  file : Path
  kind : String
  message : String
deriving DecidableEq, Repr, Inhabited

structure Resolution where
  /-- The record after the search. -/
  callable : Callable
  /-- The files that were tried, in order. -/
  attempted : List Path
  failures : List CandidateFailure
  /-- Callables that were new, or became definitions, in order. -/
  updated : List CallableId
deriving DecidableEq, Repr, Inhabited

structure DefinitionSearch where
  tools : Toolchain
  catalog : Catalog
  /-- Whether callables of system headers are merged. -/
  keepSystem : Bool

namespace DefinitionSearch

/-- The files that may define a callable, the closest to its declaration first. -/
def candidates (search : DefinitionSearch) (index : Index) (callable : Callable) : List Path :=
  let files := search.tools.files
  let pending := search.catalog.paths.filter fun file => !index.isIngested files file
  let mentioning := pending.filter (mentions files callable.spelling)
  -- The sort is stable, so files that are equally close keep the order of the catalog.
  mentioning.mergeSort fun left right =>
    sharedSteps callable.translationUnit right ≤ sharedSteps callable.translationUnit left

/-- The files tried so far and what came of them. -/
structure Attempts where
  attempted : List Path
  failures : List CandidateFailure
  updated : List CallableId
deriving DecidableEq, Repr, Inhabited

namespace Attempts

def none : Attempts := ⟨[], [], []⟩

/-- One more file, which could not be ingested. -/
def fail (attempts : Attempts) (file : Path) (error : Error) : Attempts where
  attempted := attempts.attempted ++ [file]
  failures := attempts.failures ++ [⟨file, error.kind, error.message⟩]
  updated := attempts.updated

/-- One more file, which was ingested. -/
def merge (attempts : Attempts) (file : Path) (report : IngestReport) : Attempts where
  attempted := attempts.attempted ++ [file]
  failures := attempts.failures
  updated := attempts.updated ++ report.updated

end Attempts

def argumentsOf (search : DefinitionSearch) (file : Path) : List String :=
  (search.catalog.arguments? search.tools.files file).getD []

/-- Ingests a file of the catalog into an index. -/
def ingest (search : DefinitionSearch) (index : Index) (file : Path) :
    Except Error (Index × IngestReport) :=
  index.ingest search.tools file (search.argumentsOf file) search.keepSystem

/-- Ingests files until one of them defines a callable. A file that fails is passed over. -/
def tryFiles (search : DefinitionSearch) (id : CallableId) :
    List Path → Attempts → IndexM Attempts
  | [], attempts => pure attempts
  | file :: rest, attempts => do
    let index ← get
    if index.isIngested search.tools.files file then search.tryFiles id rest attempts
    else
      match search.ingest index file with
      | .error error => search.tryFiles id rest (attempts.fail file error)
      | .ok (grown, report) =>
        set grown
        let record ← IndexM.lookup id
        if record.isDefinition then pure (attempts.merge file report)
        else search.tryFiles id rest (attempts.merge file report)

/-- Searches for the definition of a callable in place. Finding none is no error. -/
def resolveInPlace (search : DefinitionSearch) (id : CallableId) : IndexM Resolution := do
  let target ← IndexM.lookup id
  if target.isDefinition then pure ⟨target, [], [], []⟩
  else
    let files := search.candidates (← get) target
    let attempts ← search.tryFiles id files .none
    let record ← IndexM.lookup id
    pure ⟨record, attempts.attempted, attempts.failures, attempts.updated⟩

/-- The index after a search for the definition of a callable, and what came of the search. -/
def resolve (search : DefinitionSearch) (index : Index) (id : CallableId) :
    Except Error (Index × Resolution) :=
  match (search.resolveInPlace id).run index with
  | .ok resolution after => .ok (after, resolution)
  | .error error _ => .error error

theorem mem_paths_of_mem_candidates {search : DefinitionSearch} {index : Index}
    {callable : Callable} {file : Path} (member : file ∈ search.candidates index callable) :
    file ∈ search.catalog.paths := by
  simp only [candidates, List.mem_mergeSort, List.mem_filter] at member
  exact member.1.1

/-- What trying the first of some files leads to. -/
theorem run_tryFiles_cons (search : DefinitionSearch) (id : CallableId) (file : Path)
    (rest : List Path) (attempts : Attempts) (index : Index) :
    (search.tryFiles id (file :: rest) attempts).run index =
      if index.isIngested search.tools.files file then
        (search.tryFiles id rest attempts).run index
      else
        match search.ingest index file with
        | .error error => (search.tryFiles id rest (attempts.fail file error)).run index
        | .ok (grown, report) =>
          match grown.lookup id with
          | .error error => .error error grown
          | .ok record =>
            if record.isDefinition then .ok (attempts.merge file report) grown
            else (search.tryFiles id rest (attempts.merge file report)).run grown := by
  rw [tryFiles, EStateM.run_bind, EStateM.run_get]
  dsimp only
  split
  · rfl
  · cases search.ingest index file with
    | error error => rfl
    | ok result =>
      simp only [EStateM.run_bind, EStateM.run_set, IndexM.run_lookup]
      cases result.1.lookup id with
      | error error => rfl
      | ok record =>
        dsimp only
        split <;> rfl

/-- Trying files of the catalog leaves the index as it is, or fewer files pending. -/
theorem tryFiles_progress {search : DefinitionSearch} {id : CallableId} {files : List Path}
    {index after : Index} {attempts done : Attempts}
    (listed : ∀ file ∈ files, file ∈ search.catalog.paths)
    (success : (search.tryFiles id files attempts).run index = .ok done after) :
    after = index ∨ search.catalog.pending search.tools.files after <
      search.catalog.pending search.tools.files index := by
  induction files generalizing index attempts with
  | nil =>
    rw [tryFiles, EStateM.run_pure, EStateM.Result.ok.injEq] at success
    exact .inl success.2.symm
  | cons file rest ih =>
    have listedRest : ∀ other ∈ rest, other ∈ search.catalog.paths :=
      fun other member => listed other (List.mem_cons_of_mem _ member)
    rw [run_tryFiles_cons] at success
    split at success
    · exact ih listedRest success
    · rename_i new
      split at success
      · exact ih listedRest success
      · rename_i grown report ingested
        have fewer := Catalog.pending_lt_of_ingest (listed file (by simp))
          (by simpa using new) ingested
        split at success
        · cases success
        · split at success
          · rw [EStateM.Result.ok.injEq] at success
            exact .inr (success.2 ▸ fewer)
          · rcases ih listedRest success with same | less
            · exact .inr (same ▸ fewer)
            · exact .inr (Nat.lt_trans less fewer)

/-- What a search leads to, with its look-ups written out. -/
theorem run_resolveInPlace (search : DefinitionSearch) (id : CallableId) (index : Index) :
    (search.resolveInPlace id).run index =
      match index.lookup id with
      | .error error => .error error index
      | .ok target =>
        if target.isDefinition then .ok ⟨target, [], [], []⟩ index
        else
          match (search.tryFiles id (search.candidates index target) .none).run index with
          | .error error after => .error error after
          | .ok attempts after =>
            match after.lookup id with
            | .error error => .error error after
            | .ok record =>
              .ok ⟨record, attempts.attempted, attempts.failures, attempts.updated⟩ after := by
  rw [resolveInPlace, EStateM.run_bind, IndexM.run_lookup]
  cases index.lookup id with
  | error error => rfl
  | ok target =>
    dsimp only
    split
    · rfl
    · rw [EStateM.run_bind, EStateM.run_get]
      dsimp only
      rw [EStateM.run_bind]
      cases (search.tryFiles id (search.candidates index target) .none).run index with
      | error error after => rfl
      | ok attempts after =>
        dsimp only
        rw [EStateM.run_bind, IndexM.run_lookup]
        cases after.lookup id <;> rfl

/-- A search leaves the index as it is, or fewer files pending. -/
theorem resolveInPlace_progress {search : DefinitionSearch} {index after : Index}
    {id : CallableId} {resolution : Resolution}
    (success : (search.resolveInPlace id).run index = .ok resolution after) :
    after = index ∨ search.catalog.pending search.tools.files after <
      search.catalog.pending search.tools.files index := by
  rw [run_resolveInPlace] at success
  split at success
  · cases success
  · split at success
    · rw [EStateM.Result.ok.injEq] at success
      exact .inl success.2.symm
    · split at success
      · cases success
      · rename_i attempts grown tried
        split at success
        · cases success
        · rw [EStateM.Result.ok.injEq] at success
          rw [← success.2]
          exact tryFiles_progress (fun file => mem_paths_of_mem_candidates) tried

theorem resolve_progress {search : DefinitionSearch} {index after : Index} {id : CallableId}
    {resolution : Resolution} (success : search.resolve index id = .ok (after, resolution)) :
    after = index ∨ search.catalog.pending search.tools.files after <
      search.catalog.pending search.tools.files index := by
  unfold resolve at success
  split at success
  · rename_i outcome reached found
    simp only [Except.ok.injEq, Prod.mk.injEq] at success
    exact resolveInPlace_progress (success.1 ▸ found)
  · cases success

end DefinitionSearch

end CallGraph
