import CallGraph.Proofs.Catalog.Entries
import CallGraph.Proofs.Session.Run

/-!
# Invariants of a session

Main result: `run_invariants`. After every run of requests over one file system the phase tells
which parts of a session there are (`Coherent`), and what has been ingested and the arguments of
the catalog are anchored in what the session was given (`Anchored`).

Each effect keeps both. What a phase allows is what keeps the parts together: a catalog is opened
only as long as the index is empty, and a callable is chosen only when there is a root.
-/
namespace CallGraph

theorem Phase.rank_lt_of_allowed {phase : Phase} (allowed : phase ∈ [.initialized, .argumentsSet]) :
    phase.rank < Phase.readyToSelectUnit.rank := by
  revert allowed
  cases phase <;> simp [rank]

namespace Session

/-- The phase tells which parts of a session there are. -/
structure Coherent (session : Session) : Prop where
  catalog_iff : session.catalog?.isSome = true ↔
    Phase.readyToSelectUnit.rank ≤ session.phase.rank
  root_iff : session.root?.isSome = true ↔ session.phase = .interactive
  root_known : ∀ id, session.root? = some id → id ∈ session.index.ids
  included_known : ∀ id ∈ session.included, id ∈ session.index.ids
  included_late : session.phase ≠ .interactive → session.included = []
  index_late : session.phase.rank < Phase.readyToSelectRoot.rank →
    session.index.nodes = [] ∧ session.index.ingested = []

/-- What has been ingested are files of the catalog, by their canonical paths, and the catalog is
made with the extra arguments of the session. -/
structure Anchored (files : FileSystem) (session : Session) : Prop where
  ingested : ∀ path ∈ session.index.ingested, files.canonical? path = some path ∧
    ∃ catalog, session.catalog? = some catalog ∧
      ∃ listed ∈ catalog.paths, listed.same path = true
  entries : ∀ catalog, session.catalog? = some catalog →
    Catalog.ForEach files.Settles (session.extraArguments <:+ ·) catalog.entries

theorem coherent_start (displayRoot? : Option Path) : (start displayRoot?).Coherent where
  catalog_iff := by simp [start, Phase.rank]
  root_iff := by simp [start]
  root_known := by simp [start]
  included_known := by simp [start]
  included_late _ := rfl
  index_late _ := ⟨rfl, rfl⟩

theorem anchored_start (files : FileSystem) (displayRoot? : Option Path) :
    (start displayRoot?).Anchored files where
  ingested := by simp [start, Index.empty]
  entries := by simp [start]

namespace Coherent

variable {session : Session}

/-- A graph that has only grown goes with the same choices. -/
theorem grow (coherent : session.Coherent) {index : Index} {updated : List CallableId}
    (announces : session.index.Announces index updated)
    (late : Phase.readyToSelectRoot.rank ≤ session.phase.rank) :
    ({ session with index := index } : Session).Coherent where
  catalog_iff := coherent.catalog_iff
  root_iff := coherent.root_iff
  root_known id chosen := announces.known (coherent.root_known id chosen)
  included_known id member := announces.known (coherent.included_known id member)
  included_late := coherent.included_late
  index_late early := absurd early (Nat.not_lt.mpr late)

theorem choose (coherent : session.Coherent) (interactive : session.phase = .interactive)
    {chosen : List CallableId} (known : ∀ id ∈ chosen, id ∈ session.index.ids) :
    ({ session with included := chosen } : Session).Coherent where
  catalog_iff := coherent.catalog_iff
  root_iff := coherent.root_iff
  root_known := coherent.root_known
  included_known := known
  included_late early := absurd interactive early
  index_late := coherent.index_late

/-- Without a root there is nothing that has to be known. -/
theorem of_no_root {index : Index} {phase : Phase} {catalog? : Option Catalog}
    (catalog_iff : catalog?.isSome = true ↔ Phase.readyToSelectUnit.rank ≤ phase.rank)
    (early : phase ≠ .interactive)
    (index_late : phase.rank < Phase.readyToSelectRoot.rank →
      index.nodes = [] ∧ index.ingested = [])
    {extra : List String} {displayRoot? : Option Path} {keepSystem : Bool} :
    Coherent ⟨phase, extra, displayRoot?, keepSystem, catalog?, index, none, []⟩ where
  catalog_iff := catalog_iff
  root_iff := by simp [early]
  root_known := by simp
  included_known := by simp
  included_late _ := rfl
  index_late := index_late

theorem root_none (coherent : session.Coherent)
    (early : session.phase ≠ .interactive) : session.root? = none := by
  cases chosen : session.root? with
  | none => rfl
  | some id => exact absurd (coherent.root_iff.mp (by simp [chosen])) early

theorem catalog_none (coherent : session.Coherent)
    (early : session.phase.rank < Phase.readyToSelectUnit.rank) : session.catalog? = none := by
  cases opened : session.catalog? with
  | none => rfl
  | some catalog =>
    have late := coherent.catalog_iff.mp (by simp [opened])
    exact absurd early (Nat.not_lt.mpr late)

end Coherent

end Session

namespace Effect

variable {tools : Toolchain} {before after : Session} {operation : Operation} {events : List Event}

theorem rank_le (effect : Effect tools before operation after events) :
    before.phase.rank ≤ after.phase.rank := by
  cases effect with
  | argumentsSet allowed | sourceOpened allowed | unitIngested allowed | rootChosen allowed =>
    revert allowed
    cases before.phase <;> simp [Phase.rank]
  | _ => exact Nat.le_refl _

theorem coherent (effect : Effect tools before operation after events)
    (wellFormed : WellFormed before.index.nodes) (coherent : before.Coherent) : after.Coherent := by
  cases effect with
  | argumentsSet allowed =>
    have low := Phase.rank_lt_of_allowed allowed
    have early : before.phase ≠ .interactive := by
      revert allowed
      cases before.phase <;> simp
    rw [coherent.root_none early, coherent.included_late early, coherent.catalog_none low]
    refine .of_no_root (by simp [Phase.rank]) (by decide) fun _ => ?_
    exact coherent.index_late (Nat.lt_trans low (by decide))
  | sourceOpened allowed opened =>
    exact .of_no_root (by simp [Phase.rank]) (by decide) fun _ => ⟨rfl, rfl⟩
  | unitIngested allowed opened listed success =>
    have early : before.phase ≠ .interactive := by
      revert allowed
      cases before.phase <;> simp
    rw [coherent.root_none early, coherent.included_late early, opened]
    exact .of_no_root (by simp [Phase.rank]) (by decide) fun low => absurd low (by decide)
  | rootChosen allowed known =>
    have late : Phase.readyToSelectUnit.rank ≤ before.phase.rank := by
      revert allowed
      cases before.phase <;> simp [Phase.rank]
    constructor
    · simp [coherent.catalog_iff.mpr late, Phase.rank]
    · simp
    · intro id chosen
      cases chosen
      exact known
    · exact coherent.included_known
    · exact fun early => absurd rfl early
    · have last : ¬Phase.interactive.rank < Phase.readyToSelectRoot.rank := by decide
      exact fun low => absurd low last
  | searched allowed opened _ grown =>
    -- A search only adds callables, so the root and what is chosen stay known.
    refine coherent.grow (grown.announces wellFormed) ?_
    rw [allowed]
    decide
  | included allowed known new =>
    refine coherent.choose allowed fun id member => ?_
    rcases List.mem_append.mp member with old | last
    · exact coherent.included_known id old
    · exact List.mem_singleton.mp last ▸ known
  | excluded allowed member =>
    exact coherent.choose allowed fun id kept =>
      coherent.included_known id (List.mem_of_mem_erase kept)
  | includedBefore | excludedBefore | drawn => exact coherent

/-- What a session has been given once stays behind what it has ingested. -/
theorem anchored (effect : Effect tools before operation after events)
    (coherent : before.Coherent) (wellNamed : tools.files.WellNamed)
    (anchored : before.Anchored tools.files) : after.Anchored tools.files := by
  cases effect with
  | argumentsSet allowed =>
    have low := Phase.rank_lt_of_allowed allowed
    -- The arguments change only while there is no catalog that was made with the old ones.
    exact ⟨anchored.ingested, by simp [coherent.catalog_none low]⟩
  | sourceOpened allowed opened =>
    refine ⟨by simp [Index.empty], ?_⟩
    intro catalog same
    cases same
    exact Catalog.entries_ofPath wellNamed opened
  | unitIngested allowed opened listed success =>
    refine ⟨?_, anchored.entries⟩
    intro path member
    rcases Index.mem_ingested_of_ingest success member with old | found
    · exact anchored.ingested path old
    · have inCatalog := Catalog.listed_of_arguments? listed
      rw [FileSystem.canonical, found, Option.getD_some] at inCatalog
      exact ⟨FileSystem.canonical?_canonical wellNamed found, _, opened, inCatalog⟩
  | searched allowed opened _ grown =>
    refine ⟨?_, anchored.entries⟩
    intro path member
    rcases grown.mem_ingested member with old | ⟨file, listed, found⟩
    · exact anchored.ingested path old
    · -- The file is taken from the catalog, where paths that lead anywhere are canonical.
      obtain ⟨entry, isEntry, rfl⟩ := List.mem_map.mp listed
      have settled := (anchored.entries _ opened entry isEntry).1 path found
      subst settled
      exact ⟨found, _, opened, entry.1, listed, Path.same_iff.mpr rfl⟩
  | rootChosen | included | excluded => exact ⟨anchored.ingested, anchored.entries⟩
  | includedBefore | excludedBefore | drawn => exact anchored

end Effect

/-- The unit that a request selects is a file of the catalog, and its analysis ends in an error. -/
def Request.AnalysisFails (request : Request) (before : Session) (error : Error) : Prop :=
  ∃ file keepSystem catalog arguments path, request.operation = .selectUnit file keepSystem ∧
    before.catalog? = some catalog ∧
    catalog.arguments? request.tools.files file = some arguments ∧
    request.tools.files.canonical? file = some path ∧
    request.tools.analyze path arguments = .error error

namespace Session

variable {session : Session}

theorem diagram_of_interactive (coherent : session.Coherent)
    (interactive : session.phase = .interactive) :
    ∃ text, session.diagram = .ok text := by
  obtain ⟨root, chosen⟩ := Option.isSome_iff_exists.mp (coherent.root_iff.mpr interactive)
  rw [diagram, if_neg (not_not_intro interactive), chosen]
  exact ⟨_, rfl⟩

theorem diagram_of_early (early : session.phase ≠ .interactive) :
    session.diagram = .error (.preconditionFailed
      s!"export needs a selected root (session is {session.phase.label})") := by
  rw [diagram, if_pos early]

/-- A session that has no root says so by its phase. -/
theorem diagram_error_ne (coherent : session.Coherent) {error : Error}
    (failure : session.diagram = .error error) :
    error ≠ .preconditionFailed "no root selected" ∧
      error ≠ .preconditionFailed "no catalog open" := by
  by_cases interactive : session.phase = .interactive
  · obtain ⟨text, drawn⟩ := diagram_of_interactive coherent interactive
    rw [drawn] at failure
    cases failure
  · rw [diagram_of_early interactive, Except.error.injEq] at failure
    rw [← failure]
    cases session.phase <;> decide

end Session

/-- A session with its parts in order is never refused for want of a catalog. -/
theorem Refusal.error_ne_noCatalog {request : Request} {before : Session}
    (coherent : before.Coherent) {error : Error}
    (refusal : Refusal request.tools before request.operation error)
    (same : error = .preconditionFailed "no catalog open") :
    request.AnalysisFails before error := by
  obtain ⟨tools, operation⟩ := request
  cases refusal with
  | closed | unlisted | unknown => cases same
  | source failure =>
    rcases Catalog.error_of_ofPath failure with rfl | ⟨_, rfl⟩ | ⟨_, rfl⟩ <;> cases same
  | noCatalog late missing =>
    have opened := coherent.catalog_iff.mpr late
    rw [missing] at opened
    cases opened
  | unit opened listed failure =>
    rcases Index.error_of_ingest failure with rfl | ⟨path, found, analyzed⟩
    · cases same
    · exact ⟨_, _, _, _, path, rfl, opened, listed, found, analyzed⟩
  | undrawn failure => exact absurd same (Session.diagram_error_ne coherent failure).2

namespace Observed

variable {displayRoot? : Option Path} {requests : List Request}

theorem coherent_run (displayRoot? : Option Path) (requests : List Request) :
    (run displayRoot? requests).session.Coherent :=
  run_induction (motive := fun observed => observed.session.Coherent)
    (Session.coherent_start displayRoot?)
    fun _ _ _ _ _ wellFormed coherent effect => effect.coherent wellFormed coherent

/-- What holds at the start and is kept by every effect on a coherent session holds after a run. -/
theorem coherent_induction {motive : Observed → Prop} (first : motive (start displayRoot?))
    (next : ∀ request ∈ requests, ∀ (before : Observed) (after : Session) (events : List Event),
      WellFormed before.session.index.nodes → before.session.Coherent → motive before →
      Effect request.tools before.session request.operation after events →
      motive ⟨after, before.events ++ events⟩) :
    motive (run displayRoot? requests) := by
  let Both (observed : Observed) : Prop := observed.session.Coherent ∧ motive observed
  have both : Both (run displayRoot? requests) := by
    refine run_induction (motive := Both) ⟨Session.coherent_start _, first⟩ ?_
    rintro request member before after events wellFormed ⟨coherent, holds⟩ effect
    exact ⟨effect.coherent wellFormed coherent,
      next request member before after events wellFormed coherent holds effect⟩
  exact both.2

theorem anchored_run {files : FileSystem} (wellNamed : files.WellNamed)
    (displayRoot? : Option Path) (fixed : ∀ request ∈ requests, request.tools.files = files) :
    (run displayRoot? requests).session.Anchored files := by
  refine coherent_induction (motive := fun observed => observed.session.Anchored files)
    (Session.anchored_start files displayRoot?) ?_
  intro request member before after events _ coherent anchored effect
  have same := fixed request member
  subst same
  exact effect.anchored coherent wellNamed anchored

theorem rank_le_run (displayRoot? : Option Path) (requests more : List Request) :
    (run displayRoot? requests).session.phase.rank ≤
      (run displayRoot? (requests ++ more)).session.phase.rank := by
  induction more using List.reverseRecOn with
  | nil => simp
  | append_singleton more request ih =>
    rw [← List.append_assoc, run_append]
    rcases serve_cases (wellFormed_run displayRoot? (requests ++ more)) request with
      same | ⟨after, events, effect, served⟩
    · rw [same]
      exact ih
    · rw [served]
      exact Nat.le_trans ih effect.rank_le

/-- After every run over one file system the parts of a session fit its phase, and what it has
ingested fits its catalog. Phases only advance. An export fails in early phases alone, and no
request is refused for want of a catalog or a root. -/
theorem run_invariants {files : FileSystem} (wellNamed : files.WellNamed)
    (displayRoot? : Option Path) (requests : List Request)
    (fixed : ∀ request ∈ requests, request.tools.files = files) :
    let observed := run displayRoot? requests
    observed.session.Coherent ∧ observed.session.Anchored files ∧
    (∀ more, observed.session.phase.rank ≤
      (run displayRoot? (requests ++ more)).session.phase.rank) ∧
    ((∃ text, observed.session.diagram = .ok text) ↔ observed.session.phase = .interactive) ∧
    observed.session.diagram ≠ .error (.preconditionFailed "no root selected") ∧
    ∀ (request : Request) (after : Observed),
      (request.operation.work request.tools).run observed =
        .error (.preconditionFailed "no catalog open") after →
      request.AnalysisFails observed.session (.preconditionFailed "no catalog open") := by
  intro observed
  have coherent := coherent_run displayRoot? requests
  refine ⟨coherent, anchored_run wellNamed displayRoot? fixed, rank_le_run displayRoot? requests,
    ⟨?_, Session.diagram_of_interactive coherent⟩, ?_, ?_⟩
  · rintro ⟨text, drawn⟩
    by_contra early
    rw [Session.diagram_of_early early] at drawn
    cases drawn
  · intro failure
    exact (Session.diagram_error_ne coherent failure).1 rfl
  · intro request after failure
    have outcome := outcome_work request.tools observed (wellFormed_run displayRoot? requests)
      request.operation
    rw [failure] at outcome
    cases outcome with
    | refused refusal => exact refusal.error_ne_noCatalog coherent rfl

section Example

private def oneFile : FileSystem := (FileSystem.empty ⟨"/w"⟩).addFile ⟨"/w/a.cpp"⟩ [102]

/-- A single file that defines one function. -/
private def oneFunction : Toolchain where
  files := oneFile
  analyze path _ := .ok
    { translationUnit := path
      facts := [.callable
        { kind := .function, scope := [], spelling := "f", displayName := "f()",
          resultType := "int", isDefinition := true, sourceFile := path, translationUnit := path }]
      warnings := [] }
  systemDirectories _ := []

private def explore : List Request :=
  [⟨oneFunction, .setExtraArguments ["-DX"]⟩, ⟨oneFunction, .openSource ⟨"a.cpp"⟩⟩,
    ⟨oneFunction, .selectUnit ⟨"./a.cpp"⟩ false⟩, ⟨oneFunction, .selectRoot ⟨"f()"⟩⟩]

/-- A session over one file, up to its root. -/
theorem explored_file_canonical :
    oneFile.WellNamed ∧ (∀ request ∈ explore, request.tools.files = oneFile) ∧
      (run none explore).session.phase = .interactive ∧
      oneFile.canonical? ⟨"/w/a.cpp"⟩ = some ⟨"/w/a.cpp"⟩ ∧
      ∃ text, (run none explore).session.diagram = .ok text := by
  have wellNamed : oneFile.WellNamed := (FileSystem.wellNamed_empty ⟨"/w"⟩).addFile _ _
  have fixed : ∀ request ∈ explore, request.tools.files = oneFile := by simp [explore, oneFunction]
  have interactive : (run none explore).session.phase = .interactive := by decide +kernel
  have ingested : ⟨"/w/a.cpp"⟩ ∈ (run none explore).session.index.ingested := by decide +kernel
  obtain ⟨_, anchored, _, drawn, _⟩ := run_invariants wellNamed none explore fixed
  exact ⟨wellNamed, fixed, interactive, (anchored.ingested _ ingested).1, drawn.mpr interactive⟩

end Example

end Observed

end CallGraph
