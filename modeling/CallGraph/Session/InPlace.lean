import CallGraph.DefinitionSearch
import CallGraph.Session.Basic

/-!
# Sessions at work

The operations on a session. Each phase allows certain operations. An operation works on the
session in place, in stages, and tells an observer what it does. A failure at a later stage takes
nothing back of what the stages before it have done.
-/
namespace CallGraph

/-- A session at work, and what its observer has been told so far. -/
structure Observed where
  session : Session
  events : List Event

/-- The events of a session that enters a phase; staying in a phase is none. -/
def phaseEvents (old next : Phase) : List Event := if old = next then [] else [.phaseChanged next]

/-- The events for callables that were updated, one each, with their records. -/
def updateEvents (index : Index) (updated : List CallableId) : List Event :=
  updated.eraseDups.filterMap fun id => (index.find? id).map .callableUpdated

abbrev SessionM := EStateM Error Observed

namespace SessionM

/-- Refuses an operation outside the phases that allow it. -/
def require (operation : String) (allowed : List Phase) : SessionM Unit := do
  let phase := (← get).session.phase
  if phase ∈ allowed then pure () else throw (.invalidTransition operation phase)

def update (change : Session → Session) : SessionM Unit :=
  modify fun observed => { observed with session := change observed.session }

def notify (event : Event) : SessionM Unit :=
  modify fun observed => { observed with events := observed.events ++ [event] }

/-- Enters a phase. An observer is told of it unless the session is in that phase already. -/
def enter (next : Phase) : SessionM Unit := do
  if (← get).session.phase = next then pure ()
  else
    update fun session => { session with phase := next }
    notify (.phaseChanged next)

/-- Tells of a callable as its record is by now. -/
def notifyUpdate (id : CallableId) : SessionM Unit := do
  match (← get).session.index.find? id with
  | some callable => notify (.callableUpdated callable)
  | none => pure ()

def notifyUpdates (updated : List CallableId) : SessionM Unit :=
  forM updated.eraseDups notifyUpdate

/-- Works on the index of a session; what has been done to the index stays, whatever comes of it. -/
def onIndex {α : Type} (work : IndexM α) : SessionM α := fun observed =>
  let put (index : Index) : Observed :=
    { observed with session := { observed.session with index := index } }
  match work.run observed.session.index with
  | .ok value index => .ok value (put index)
  | .error error index => .error error (put index)

def openedCatalog : SessionM Catalog := do
  match (← get).session.catalog? with
  | some catalog => pure catalog
  | none => throw (.preconditionFailed "no catalog open")

def setExtraArguments (arguments : List String) : SessionM Unit := do
  require "set_extra_arguments" [.initialized, .argumentsSet]
  update fun session => { session with extraArguments := arguments }
  enter .argumentsSet

/-- Opens a compilation database or a single source file, and starts a new graph. -/
def openSource (tools : Toolchain) (source : Path) : SessionM Unit := do
  require "open" [.initialized, .argumentsSet, .readyToSelectUnit]
  let session := (← get).session
  let catalog ← MonadExcept.ofExcept (Catalog.ofPath tools.files source session.extraArguments)
  -- Nothing fails from here on.
  update fun session => { session with index := .empty (session.displayRootOf catalog) }
  update fun session => { session with catalog? := some catalog, root? := none, included := [] }
  enter .readyToSelectUnit

/-- Ingests a file of the catalog; answers the callables observed in it. -/
def selectUnit (tools : Toolchain) (file : Path) (keepSystem : Bool) :
    SessionM (List Callable) := do
  require "select_translation_unit" [.readyToSelectUnit, .readyToSelectRoot]
  let catalog ← openedCatalog
  match catalog.arguments? tools.files file with
  | none => throw (.unknownFile file)
  | some arguments =>
    let (index, report) ← MonadExcept.ofExcept
      ((← get).session.index.ingest tools file arguments keepSystem)
    update fun session => { session with index := index }
    update fun session => { session with keepSystem := keepSystem }
    notifyUpdates report.updated
    enter .readyToSelectRoot
    pure ((← get).session.index.declaredIn tools.files file)

def selectRoot (id : CallableId) : SessionM Unit := do
  require "select_root" [.readyToSelectRoot, .interactive]
  let _ ← onIndex (IndexM.lookup id)
  update fun session => { session with root? := some id }
  enter .interactive

/-- Searches for the definition of a callable. Finding none is no error. -/
def loadDefinition (tools : Toolchain) (id : CallableId) : SessionM Resolution := do
  require "load_definition" [.interactive]
  let catalog ← openedCatalog
  let search : DefinitionSearch := ⟨tools, catalog, (← get).session.keepSystem⟩
  -- A search that failed half way would leave in the index what it has ingested by then.
  let resolution ← onIndex (search.resolveInPlace id)
  notifyUpdates resolution.updated
  pure resolution

def includeCallable (id : CallableId) : SessionM Unit := do
  require "include" [.interactive]
  let _ ← onIndex (IndexM.lookup id)
  if id ∈ (← get).session.included then pure ()
  else
    update fun session => { session with included := session.included ++ [id] }
    notify (.inclusionChanged id true)

/-- Chooses a callable not to be drawn; one that is not drawn anyway is left alone. -/
def excludeCallable (id : CallableId) : SessionM Unit := do
  require "exclude" [.interactive]
  if id ∈ (← get).session.included then
    update fun session => { session with included := session.included.erase id }
    notify (.inclusionChanged id false)
  else pure ()

section Run

variable (session : Session) (events : List Event)

theorem run_gated {α : Type} (operation : String) (allowed : List Phase) (work : SessionM α) :
    (do require operation allowed; work : SessionM α).run ⟨session, events⟩ =
      if session.phase ∈ allowed then work.run ⟨session, events⟩
      else .error (.invalidTransition operation session.phase) ⟨session, events⟩ := by
  rw [EStateM.run_bind, require, EStateM.run_bind, EStateM.run_get]
  by_cases member : session.phase ∈ allowed <;> simp [member]

@[simp] theorem run_update (change : Session → Session) :
    (update change).run ⟨session, events⟩ = .ok () ⟨change session, events⟩ := rfl

@[simp] theorem run_notify (event : Event) :
    (notify event).run ⟨session, events⟩ = .ok () ⟨session, events ++ [event]⟩ := rfl

@[simp] theorem run_enter (next : Phase) :
    (enter next).run ⟨session, events⟩ =
      .ok () ⟨{ session with phase := next }, events ++ phaseEvents session.phase next⟩ := by
  rw [enter, EStateM.run_bind, EStateM.run_get]
  dsimp only
  split
  · rename_i same
    subst same
    simp [phaseEvents]
  · rename_i other
    simp [phaseEvents, other]

theorem run_notifyUpdate (id : CallableId) :
    (notifyUpdate id).run ⟨session, events⟩ =
      .ok () ⟨session, events ++ ((session.index.find? id).map Event.callableUpdated).toList⟩ := by
  rw [notifyUpdate, EStateM.run_bind, EStateM.run_get]
  dsimp only
  cases session.index.find? id <;> simp

theorem run_forM_notifyUpdate (ids : List CallableId) :
    (forM ids notifyUpdate).run ⟨session, events⟩ = .ok () ⟨session, events ++
      ids.filterMap fun id => (session.index.find? id).map .callableUpdated⟩ := by
  induction ids generalizing events with
  | nil => simp
  | cons id ids ih =>
    rw [List.forM_cons, EStateM.run_bind, run_notifyUpdate]
    dsimp only
    rw [ih, List.append_assoc, List.filterMap_cons]
    cases session.index.find? id <;> rfl

@[simp] theorem run_notifyUpdates (updated : List CallableId) :
    (notifyUpdates updated).run ⟨session, events⟩ =
      .ok () ⟨session, events ++ updateEvents session.index updated⟩ :=
  run_forM_notifyUpdate session events _

theorem run_onIndex {α : Type} (work : IndexM α) :
    (onIndex work).run ⟨session, events⟩ =
      match work.run session.index with
      | .ok value index => .ok value ⟨{ session with index := index }, events⟩
      | .error error index => .error error ⟨{ session with index := index }, events⟩ := rfl

theorem run_openedCatalog :
    openedCatalog.run ⟨session, events⟩ =
      match session.catalog? with
      | some catalog => .ok catalog ⟨session, events⟩
      | none => .error (.preconditionFailed "no catalog open") ⟨session, events⟩ := by
  rw [openedCatalog, EStateM.run_bind, EStateM.run_get]
  dsimp only
  cases session.catalog? <;> rfl

/-! What each operation comes to, with its stages written out. -/

theorem run_setExtraArguments (arguments : List String) :
    (setExtraArguments arguments).run ⟨session, events⟩ =
      if session.phase ∈ [.initialized, .argumentsSet] then
        .ok () ⟨{ session with extraArguments := arguments, phase := .argumentsSet },
          events ++ phaseEvents session.phase .argumentsSet⟩
      else .error (.invalidTransition "set_extra_arguments" session.phase) ⟨session, events⟩ := by
  rw [setExtraArguments, run_gated]
  split <;> simp

theorem run_openSource (tools : Toolchain) (source : Path) :
    (openSource tools source).run ⟨session, events⟩ =
      if session.phase ∈ [.initialized, .argumentsSet, .readyToSelectUnit] then
        match Catalog.ofPath tools.files source session.extraArguments with
        | .error error => .error error ⟨session, events⟩
        | .ok catalog =>
          .ok () ⟨{ session with
            catalog? := some catalog
            index := .empty (session.displayRootOf catalog)
            root? := none
            included := []
            phase := .readyToSelectUnit }, events ++ phaseEvents session.phase .readyToSelectUnit⟩
      else .error (.invalidTransition "open" session.phase) ⟨session, events⟩ := by
  rw [openSource, run_gated]
  split
  · rw [EStateM.run_bind, EStateM.run_get]
    dsimp only
    rw [EStateM.run_bind, run_ofExcept]
    cases Catalog.ofPath tools.files source session.extraArguments <;> simp
  · rfl

theorem run_selectUnit (tools : Toolchain) (file : Path) (keepSystem : Bool) :
    (selectUnit tools file keepSystem).run ⟨session, events⟩ =
      if session.phase ∈ [.readyToSelectUnit, .readyToSelectRoot] then
        match session.catalog? with
        | none => .error (.preconditionFailed "no catalog open") ⟨session, events⟩
        | some catalog =>
          match catalog.arguments? tools.files file with
          | none => .error (.unknownFile file) ⟨session, events⟩
          | some arguments =>
            match session.index.ingest tools file arguments keepSystem with
            | .error error => .error error ⟨session, events⟩
            | .ok (index, report) =>
              .ok (index.declaredIn tools.files file)
                ⟨{ session with
                  index := index
                  keepSystem := keepSystem
                  phase := .readyToSelectRoot },
                  events ++ updateEvents index report.updated ++
                    phaseEvents session.phase .readyToSelectRoot⟩
      else .error (.invalidTransition "select_translation_unit" session.phase)
        ⟨session, events⟩ := by
  rw [selectUnit, run_gated]
  split
  · rw [EStateM.run_bind, run_openedCatalog]
    cases opened : session.catalog? with
    | none => rfl
    | some catalog =>
      dsimp only
      cases catalog.arguments? tools.files file with
      | none => rfl
      | some arguments =>
        dsimp only
        rw [EStateM.run_bind, EStateM.run_get]
        dsimp only
        rw [EStateM.run_bind, run_ofExcept]
        cases session.index.ingest tools file arguments keepSystem <;>
          simp [opened, -bind_pure_comp]
  · rfl

theorem run_selectRoot (id : CallableId) :
    (selectRoot id).run ⟨session, events⟩ =
      if session.phase ∈ [.readyToSelectRoot, .interactive] then
        match session.index.lookup id with
        | .error error => .error error ⟨session, events⟩
        | .ok _ => .ok () ⟨{ session with root? := some id, phase := .interactive },
            events ++ phaseEvents session.phase .interactive⟩
      else .error (.invalidTransition "select_root" session.phase) ⟨session, events⟩ := by
  rw [selectRoot, run_gated]
  split
  · rw [EStateM.run_bind, run_onIndex, IndexM.run_lookup]
    cases session.index.lookup id <;> simp
  · rfl

theorem run_loadDefinition (tools : Toolchain) (id : CallableId) :
    (loadDefinition tools id).run ⟨session, events⟩ =
      if session.phase ∈ [.interactive] then
        match session.catalog? with
        | none => .error (.preconditionFailed "no catalog open") ⟨session, events⟩
        | some catalog =>
          match (DefinitionSearch.resolveInPlace ⟨tools, catalog, session.keepSystem⟩ id).run
            session.index with
          | .error error index => .error error ⟨{ session with index := index }, events⟩
          | .ok resolution index =>
            .ok resolution ⟨{ session with index := index },
              events ++ updateEvents index resolution.updated⟩
      else .error (.invalidTransition "load_definition" session.phase) ⟨session, events⟩ := by
  rw [loadDefinition, run_gated]
  split
  · rw [EStateM.run_bind, run_openedCatalog]
    cases opened : session.catalog? with
    | none => rfl
    | some catalog =>
      dsimp only
      rw [EStateM.run_bind, EStateM.run_get]
      dsimp only
      rw [EStateM.run_bind, run_onIndex]
      cases (DefinitionSearch.resolveInPlace ⟨tools, catalog, session.keepSystem⟩ id).run
        session.index <;> simp [opened, -bind_pure_comp]
  · rfl

theorem run_includeCallable (id : CallableId) :
    (includeCallable id).run ⟨session, events⟩ =
      if session.phase ∈ [.interactive] then
        match session.index.lookup id with
        | .error error => .error error ⟨session, events⟩
        | .ok _ =>
          if id ∈ session.included then .ok () ⟨session, events⟩
          else .ok () ⟨{ session with included := session.included ++ [id] },
            events ++ [.inclusionChanged id true]⟩
      else .error (.invalidTransition "include" session.phase) ⟨session, events⟩ := by
  rw [includeCallable, run_gated]
  split
  · rw [EStateM.run_bind, run_onIndex, IndexM.run_lookup]
    cases session.index.lookup id with
    | error error => rfl
    | ok record =>
      dsimp only
      rw [EStateM.run_bind, EStateM.run_get]
      dsimp only
      split <;> simp
  · rfl

theorem run_excludeCallable (id : CallableId) :
    (excludeCallable id).run ⟨session, events⟩ =
      if session.phase ∈ [.interactive] then
        if id ∈ session.included then
          .ok () ⟨{ session with included := session.included.erase id },
            events ++ [.inclusionChanged id false]⟩
        else .ok () ⟨session, events⟩
      else .error (.invalidTransition "exclude" session.phase) ⟨session, events⟩ := by
  rw [excludeCallable, run_gated]
  split
  · rw [EStateM.run_bind, EStateM.run_get]
    dsimp only
    split <;> simp
  · rfl

end Run

end SessionM

end CallGraph
