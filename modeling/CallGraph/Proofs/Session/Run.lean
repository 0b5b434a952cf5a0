import CallGraph.Proofs.Search.Growth
import CallGraph.Session.InPlace
import Mathlib.Data.List.Induction

/-!
# Runs of a session

What an operation can do to a session is said once. It has an `Effect`, which is all that it does
to the session and all that an observer is told, or it meets a `Refusal` and does nothing at all
(`outcome_work`). Whatever effects keep holds after every run (`run_induction`).

An operation works in place and in stages, so that a refused one does nothing has to be shown. The
only look-up that could fail after a change is the one in a search, and there the callable is known.
-/
namespace CallGraph

/-- What can be asked of a session. -/
inductive Operation where
  | setExtraArguments (arguments : List String)
  | openSource (source : Path)
  | selectUnit (file : Path) (keepSystem : Bool)
  | selectRoot (id : CallableId)
  | loadDefinition (id : CallableId)
  | includeCallable (id : CallableId)
  | excludeCallable (id : CallableId)
  | draw
deriving DecidableEq, Repr

namespace Operation

/-- The name under which an operation is refused, and the phases that allow it. Drawing has no
gate: it is refused in words of its own. -/
def gate? : Operation → Option (String × List Phase)
  | setExtraArguments _ => some ("set_extra_arguments", [.initialized, .argumentsSet])
  | openSource _ => some ("open", [.initialized, .argumentsSet, .readyToSelectUnit])
  | selectUnit _ _ => some ("select_translation_unit", [.readyToSelectUnit, .readyToSelectRoot])
  | selectRoot _ => some ("select_root", [.readyToSelectRoot, .interactive])
  | loadDefinition _ => some ("load_definition", [.interactive])
  | includeCallable _ => some ("include", [.interactive])
  | excludeCallable _ => some ("exclude", [.interactive])
  | draw => none

def target? : Operation → Option CallableId
  | selectRoot id | loadDefinition id | includeCallable id => some id
  | _ => none

/-- The work that an operation stands for; what it answers is left out. -/
def work (tools : Toolchain) : Operation → SessionM Unit
  | setExtraArguments arguments => SessionM.setExtraArguments arguments
  | openSource source => SessionM.openSource tools source
  | selectUnit file keepSystem => do let _ ← SessionM.selectUnit tools file keepSystem
  | selectRoot id => SessionM.selectRoot id
  | loadDefinition id => do let _ ← SessionM.loadDefinition tools id
  | includeCallable id => SessionM.includeCallable id
  | excludeCallable id => SessionM.excludeCallable id
  | draw => do let _ ← (do MonadExcept.ofExcept (← get).session.diagram : SessionM String)

end Operation

/-- Everything that an operation can do: the session after it, and what an observer is told. -/
inductive Effect (tools : Toolchain) (before : Session) :
    Operation → Session → List Event → Prop where
  | argumentsSet {arguments : List String}
    (allowed : before.phase ∈ [.initialized, .argumentsSet]) :
    Effect tools before (.setExtraArguments arguments)
      { before with extraArguments := arguments, phase := .argumentsSet }
      (phaseEvents before.phase .argumentsSet)
  | sourceOpened {source : Path} {catalog : Catalog}
    (allowed : before.phase ∈ [.initialized, .argumentsSet, .readyToSelectUnit])
    (opened : Catalog.ofPath tools.files source before.extraArguments = .ok catalog) :
    Effect tools before (.openSource source)
      { before with
        catalog? := some catalog
        index := .empty (before.displayRootOf catalog)
        root? := none
        included := []
        phase := .readyToSelectUnit }
      (phaseEvents before.phase .readyToSelectUnit)
  | unitIngested {file : Path} {keepSystem : Bool} {catalog : Catalog} {arguments : List String}
    {index : Index} {report : IngestReport}
    (allowed : before.phase ∈ [.readyToSelectUnit, .readyToSelectRoot])
    (opened : before.catalog? = some catalog)
    (listed : catalog.arguments? tools.files file = some arguments)
    (success : before.index.ingest tools file arguments keepSystem = .ok (index, report)) :
    Effect tools before (.selectUnit file keepSystem)
      { before with index := index, keepSystem := keepSystem, phase := .readyToSelectRoot }
      (updateEvents index report.updated ++ phaseEvents before.phase .readyToSelectRoot)
  | rootChosen {id : CallableId} (allowed : before.phase ∈ [.readyToSelectRoot, .interactive])
    (known : id ∈ before.index.ids) :
    Effect tools before (.selectRoot id) { before with root? := some id, phase := .interactive }
      (phaseEvents before.phase .interactive)
  | searched {id : CallableId} {catalog : Catalog} {index : Index} {updated : List CallableId}
    (allowed : before.phase = .interactive) (opened : before.catalog? = some catalog)
    (known : id ∈ before.index.ids)
    (grown : DefinitionSearch.Ingests ⟨tools, catalog, before.keepSystem⟩ before.index index
      updated) :
    Effect tools before (.loadDefinition id) { before with index := index }
      (updateEvents index updated)
  | included {id : CallableId} (allowed : before.phase = .interactive)
    (known : id ∈ before.index.ids) (new : id ∉ before.included) :
    Effect tools before (.includeCallable id) { before with included := before.included ++ [id] }
      [.inclusionChanged id true]
  | includedBefore {id : CallableId} (allowed : before.phase = .interactive)
    (member : id ∈ before.included) : Effect tools before (.includeCallable id) before []
  | excluded {id : CallableId} (allowed : before.phase = .interactive)
    (member : id ∈ before.included) :
    Effect tools before (.excludeCallable id)
      { before with included := before.included.erase id } [.inclusionChanged id false]
  | excludedBefore {id : CallableId} (allowed : before.phase = .interactive)
    (absent : id ∉ before.included) : Effect tools before (.excludeCallable id) before []
  | drawn (allowed : before.phase = .interactive) : Effect tools before .draw before []

/-- Everything that can be in the way of an operation. -/
inductive Refusal (tools : Toolchain) (before : Session) : Operation → Error → Prop where
  | closed {operation : Operation} {name : String} {allowed : List Phase}
    (gate : operation.gate? = some (name, allowed)) (outside : before.phase ∉ allowed) :
    Refusal tools before operation (.invalidTransition name before.phase)
  | source {source : Path} {error : Error}
    (failure : Catalog.ofPath tools.files source before.extraArguments = .error error) :
    Refusal tools before (.openSource source) error
  | noCatalog {operation : Operation} (late : Phase.readyToSelectUnit.rank ≤ before.phase.rank)
    (missing : before.catalog? = none) :
    Refusal tools before operation (.preconditionFailed "no catalog open")
  | unlisted {file : Path} {keepSystem : Bool} {catalog : Catalog}
    (opened : before.catalog? = some catalog)
    (missing : catalog.arguments? tools.files file = none) :
    Refusal tools before (.selectUnit file keepSystem) (.unknownFile file)
  | unit {file : Path} {keepSystem : Bool} {catalog : Catalog} {arguments : List String}
    {error : Error} (opened : before.catalog? = some catalog)
    (listed : catalog.arguments? tools.files file = some arguments)
    (failure : before.index.ingest tools file arguments keepSystem = .error error) :
    Refusal tools before (.selectUnit file keepSystem) error
  | unknown {operation : Operation} {id : CallableId} (target : operation.target? = some id)
    (missing : id ∉ before.index.ids) : Refusal tools before operation (.unknownSymbol id)
  | undrawn {error : Error} (failure : before.diagram = .error error) :
    Refusal tools before .draw error

/-- What comes of an operation: its effect, or an error and no change. -/
inductive Outcome {α : Type} (tools : Toolchain) (before : Observed) (operation : Operation) :
    EStateM.Result Error Observed α → Prop where
  | done {value : α} {after : Session} {events : List Event}
    (effect : Effect tools before.session operation after events) :
    Outcome tools before operation (.ok value ⟨after, before.events ++ events⟩)
  | refused {error : Error} (refusal : Refusal tools before.session operation error) :
    Outcome tools before operation (.error error before)

namespace Outcome

variable {tools : Toolchain} {before : Observed} {operation : Operation} {α : Type}

theorem unchanged {value : α} (effect : Effect tools before.session operation before.session []) :
    Outcome tools before operation (.ok value before) := by
  have done : Outcome tools before operation (.ok value ⟨before.session, before.events ++ []⟩) :=
    .done effect
  rwa [List.append_nil] at done

theorem discard {work : SessionM α} (outcome : Outcome tools before operation (work.run before)) :
    Outcome tools before operation ((do let _ ← work : SessionM Unit).run before) := by
  rw [EStateM.run_bind]
  generalize work.run before = result at outcome ⊢
  cases outcome with
  | done effect => exact .done effect
  | refused refusal => exact .refused refusal

end Outcome

section Outcomes

variable (tools : Toolchain) (session : Session) (events : List Event)

theorem outcome_setExtraArguments (arguments : List String) :
    Outcome tools ⟨session, events⟩ (.setExtraArguments arguments)
      ((SessionM.setExtraArguments arguments).run ⟨session, events⟩) := by
  rw [SessionM.run_setExtraArguments]
  split
  · rename_i allowed
    exact .done (.argumentsSet allowed)
  · rename_i outside
    exact .refused (.closed rfl outside)

theorem outcome_openSource (source : Path) :
    Outcome tools ⟨session, events⟩ (.openSource source)
      ((SessionM.openSource tools source).run ⟨session, events⟩) := by
  rw [SessionM.run_openSource]
  split
  · rename_i allowed
    cases opened : Catalog.ofPath tools.files source session.extraArguments with
    | error error => exact .refused (.source opened)
    | ok catalog => exact .done (.sourceOpened allowed opened)
  · rename_i outside
    exact .refused (.closed rfl outside)

theorem outcome_selectUnit (file : Path) (keepSystem : Bool) :
    Outcome tools ⟨session, events⟩ (.selectUnit file keepSystem)
      ((SessionM.selectUnit tools file keepSystem).run ⟨session, events⟩) := by
  rw [SessionM.run_selectUnit]
  split
  · rename_i allowed
    split
    · rename_i missing
      have late : Phase.readyToSelectUnit.rank ≤ session.phase.rank := by
        revert allowed
        cases session.phase <;> simp [Phase.rank]
      exact .refused (.noCatalog late missing)
    · rename_i catalog opened
      cases listed : catalog.arguments? tools.files file with
      | none => exact .refused (.unlisted opened listed)
      | some arguments =>
        dsimp only
        cases success : session.index.ingest tools file arguments keepSystem with
        | error error => exact .refused (.unit opened listed success)
        | ok result =>
          dsimp only
          rw [List.append_assoc]
          exact .done (.unitIngested allowed opened listed success)
  · rename_i outside
    exact .refused (.closed rfl outside)

theorem outcome_selectRoot (id : CallableId) :
    Outcome tools ⟨session, events⟩ (.selectRoot id)
      ((SessionM.selectRoot id).run ⟨session, events⟩) := by
  rw [SessionM.run_selectRoot]
  split
  · rename_i allowed
    by_cases known : id ∈ session.index.ids
    · obtain ⟨record, found⟩ := Index.lookup_eq_ok known
      rw [found]
      exact .done (.rootChosen allowed known)
    · rw [Index.lookup_eq_error known]
      exact .refused (.unknown rfl known)
  · rename_i outside
    exact .refused (.closed rfl outside)

theorem outcome_loadDefinition (wellFormed : WellFormed session.index.nodes) (id : CallableId) :
    Outcome tools ⟨session, events⟩ (.loadDefinition id)
      ((SessionM.loadDefinition tools id).run ⟨session, events⟩) := by
  rw [SessionM.run_loadDefinition]
  split
  · rename_i allowed
    have interactive := List.mem_singleton.mp allowed
    split
    · rename_i missing
      have late : Phase.readyToSelectUnit.rank ≤ session.phase.rank := by
        rw [interactive]
        decide
      exact .refused (.noCatalog late missing)
    · rename_i catalog opened
      rcases DefinitionSearch.resolveInPlace_cases ⟨tools, catalog, session.keepSystem⟩ wellFormed
        id with ⟨known, resolution, index, resolved, grown⟩ | ⟨unknown, failed⟩
      · rw [resolved]
        exact .done (.searched interactive opened known grown)
      · -- The search has failed before it has changed anything, so the index is as it was.
        rw [failed]
        have refusal : Refusal tools session (.loadDefinition id) (.unknownSymbol id) :=
          .unknown rfl unknown
        exact @Outcome.refused _ tools ⟨session, events⟩ _ _ refusal
  · rename_i outside
    exact .refused (.closed rfl outside)

theorem outcome_includeCallable (id : CallableId) :
    Outcome tools ⟨session, events⟩ (.includeCallable id)
      ((SessionM.includeCallable id).run ⟨session, events⟩) := by
  rw [SessionM.run_includeCallable]
  split
  · rename_i allowed
    have interactive := List.mem_singleton.mp allowed
    by_cases known : id ∈ session.index.ids
    · obtain ⟨record, found⟩ := Index.lookup_eq_ok known
      simp only [found]
      split
      · rename_i member
        exact .unchanged (.includedBefore interactive member)
      · rename_i new
        exact .done (.included interactive known new)
    · rw [Index.lookup_eq_error known]
      exact .refused (.unknown rfl known)
  · rename_i outside
    exact .refused (.closed rfl outside)

theorem outcome_excludeCallable (id : CallableId) :
    Outcome tools ⟨session, events⟩ (.excludeCallable id)
      ((SessionM.excludeCallable id).run ⟨session, events⟩) := by
  rw [SessionM.run_excludeCallable]
  split
  · rename_i allowed
    have interactive := List.mem_singleton.mp allowed
    split
    · rename_i member
      exact .done (.excluded interactive member)
    · rename_i absent
      exact .unchanged (.excludedBefore interactive absent)
  · rename_i outside
    exact .refused (.closed rfl outside)

theorem outcome_draw :
    Outcome tools ⟨session, events⟩ .draw
      ((do MonadExcept.ofExcept (← get).session.diagram : SessionM String).run
        ⟨session, events⟩) := by
  rw [EStateM.run_bind, EStateM.run_get]
  dsimp only
  rw [run_ofExcept]
  cases drawing : session.diagram with
  | error error => exact .refused (.undrawn drawing)
  | ok text =>
    have interactive : session.phase = .interactive := by
      by_contra early
      rw [Session.diagram, if_pos early] at drawing
      cases drawing
    exact .unchanged (.drawn interactive)

end Outcomes

theorem outcome_work (tools : Toolchain) (before : Observed)
    (wellFormed : WellFormed before.session.index.nodes) (operation : Operation) :
    Outcome tools before operation ((operation.work tools).run before) := by
  obtain ⟨session, events⟩ := before
  cases operation with
  | setExtraArguments arguments => exact outcome_setExtraArguments tools session events arguments
  | openSource source => exact outcome_openSource tools session events source
  | selectUnit file keepSystem =>
    exact (outcome_selectUnit tools session events file keepSystem).discard
  | selectRoot id => exact outcome_selectRoot tools session events id
  | loadDefinition id => exact (outcome_loadDefinition tools session events wellFormed id).discard
  | includeCallable id => exact outcome_includeCallable tools session events id
  | excludeCallable id => exact outcome_excludeCallable tools session events id
  | draw => exact (outcome_draw tools session events).discard

theorem Effect.wellFormed {tools : Toolchain} {before after : Session} {operation : Operation}
    {events : List Event} (effect : Effect tools before operation after events)
    (wellFormed : WellFormed before.index.nodes) : WellFormed after.index.nodes := by
  cases effect with
  | sourceOpened => exact .nil
  | unitIngested _ _ _ success => exact Index.wellFormed_ingest wellFormed success
  | searched _ _ _ grown => exact grown.wellFormed wellFormed
  | _ => exact wellFormed

/-! ### What an observer was told before -/

namespace SessionM

/-- A result with what was told before the work was begun. -/
def toldAfter {α : Type} (events : List Event) :
    EStateM.Result Error Observed α → EStateM.Result Error Observed α
  | .ok value after => .ok value ⟨after.session, events ++ after.events⟩
  | .error error after => .error error ⟨after.session, events ++ after.events⟩

theorem run_discard_toldAfter {α : Type} {work : SessionM α} {session : Session}
    {events : List Event}
    (told : work.run ⟨session, events⟩ = toldAfter events (work.run ⟨session, []⟩)) :
    (do let _ ← work : SessionM Unit).run ⟨session, events⟩ =
      toldAfter events ((do let _ ← work : SessionM Unit).run ⟨session, []⟩) := by
  rw [EStateM.run_bind, EStateM.run_bind, told]
  cases work.run ⟨session, []⟩ <;> rfl

/-- What an observer was told before an operation has no influence on it. -/
theorem run_work_told (tools : Toolchain) (operation : Operation) (observed : Observed) :
    (operation.work tools).run observed =
      toldAfter observed.events ((operation.work tools).run ⟨observed.session, []⟩) := by
  obtain ⟨session, events⟩ := observed
  cases operation with
  | setExtraArguments | openSource | selectRoot | includeCallable | excludeCallable =>
    simp only [Operation.work, run_setExtraArguments, run_openSource, run_selectRoot,
      run_includeCallable, run_excludeCallable]
    repeat' split
    all_goals simp [toldAfter]
  | selectUnit =>
    refine run_discard_toldAfter ?_
    simp only [run_selectUnit]
    repeat' split
    all_goals simp [toldAfter]
  | loadDefinition =>
    refine run_discard_toldAfter ?_
    simp only [run_loadDefinition]
    repeat' split
    all_goals simp [toldAfter]
  | draw =>
    refine run_discard_toldAfter ?_
    rw [EStateM.run_bind, EStateM.run_bind, EStateM.run_get, EStateM.run_get]
    dsimp only
    rw [run_ofExcept, run_ofExcept]
    cases session.diagram <;> simp [toldAfter]

end SessionM

/-! ### Runs -/

/-- An operation and what it works with. Files and analyzers may differ from request to request. -/
structure Request where
  tools : Toolchain
  operation : Operation

namespace Observed

def start (displayRoot? : Option Path) : Observed := ⟨.start displayRoot?, []⟩

-- A request that fails leaves what it has done by then. That this is nothing is a theorem.
def serve (observed : Observed) (request : Request) : Observed :=
  match (request.operation.work request.tools).run observed with
  | .ok _ after => after
  | .error _ after => after

/-- What a new session comes to after some requests. -/
def run (displayRoot? : Option Path) (requests : List Request) : Observed :=
  requests.foldl serve (start displayRoot?)

theorem run_append (displayRoot? : Option Path) (requests : List Request)
    (request : Request) :
    run displayRoot? (requests ++ [request]) = (run displayRoot? requests).serve request := by
  simp [run]

theorem serve_cases {observed : Observed} (wellFormed : WellFormed observed.session.index.nodes)
    (request : Request) :
    observed.serve request = observed ∨
      ∃ after events, Effect request.tools observed.session request.operation after events ∧
        observed.serve request = ⟨after, observed.events ++ events⟩ := by
  have outcome := outcome_work request.tools observed wellFormed request.operation
  unfold serve
  generalize (request.operation.work request.tools).run observed = result at outcome ⊢
  cases outcome with
  | done effect => exact .inr ⟨_, _, effect, rfl⟩
  | refused => exact .inl rfl

theorem wellFormed_run (displayRoot? : Option Path) (requests : List Request) :
    WellFormed (run displayRoot? requests).session.index.nodes := by
  induction requests using List.reverseRecOn with
  | nil => exact .nil
  | append_singleton requests request ih =>
    rw [run_append]
    rcases serve_cases ih request with same | ⟨after, events, effect, served⟩
    · rw [same]
      exact ih
    · rw [served]
      exact effect.wellFormed ih

/-- What holds at the start and is kept by every effect holds after a run. -/
theorem run_induction {displayRoot? : Option Path} {requests : List Request}
    {motive : Observed → Prop} (first : motive (start displayRoot?))
    (next : ∀ request ∈ requests, ∀ (before : Observed) (after : Session) (events : List Event),
      WellFormed before.session.index.nodes → motive before →
      Effect request.tools before.session request.operation after events →
      motive ⟨after, before.events ++ events⟩) :
    motive (run displayRoot? requests) := by
  -- The graph is well formed all along, which rules out that a search fails half way.
  induction requests using List.reverseRecOn with
  | nil => exact first
  | append_singleton requests request ih =>
    have earlier := ih fun other member => next other (List.mem_append_left _ member)
    have wellFormed := wellFormed_run displayRoot? requests
    rw [run_append]
    rcases serve_cases wellFormed request with same | ⟨after, events, effect, served⟩
    · rw [same]
      exact earlier
    · rw [served]
      exact next request (by simp) _ after events wellFormed earlier effect

end Observed

end CallGraph
