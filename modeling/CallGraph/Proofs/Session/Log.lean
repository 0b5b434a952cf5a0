import CallGraph.Proofs.Session.Invariant

/-!
# The log of an observer

Main result: `log_mirrors_session`. From what an observer has been told since a session was new, it
knows the phase, the chosen callables in their order, all known callables in the order of
discovery, and which of them are definitions.

Each part of the log is read by a function of its own. An effect adds events of one kind at a time,
and what the events say is what the effect has done.
-/
namespace CallGraph

namespace Event

def phase? : Event → Option Phase
  | phaseChanged phase => some phase
  | _ => none

def updatedId? : Event → Option CallableId
  | callableUpdated callable => some callable.id
  | _ => none

/-- What an event says of whether a callable is defined. -/
def definition? (id : CallableId) : Event → Option Bool
  | callableUpdated callable => if callable.id = id then some callable.isDefinition else none
  | _ => none

/-- What an event makes of the chosen callables. To choose one twice, or to give up one that is not
chosen, makes no sense. -/
def replay (chosen : List CallableId) : Event → Option (List CallableId)
  | inclusionChanged id true => if id ∈ chosen then none else some (chosen ++ [id])
  | inclusionChanged id false => if id ∈ chosen then some (chosen.erase id) else none
  | _ => some chosen

end Event

def loggedPhase (log : List Event) : Phase :=
  ((log.filterMap Event.phase?).getLast?).getD .initialized

/-- What an observer was told last of whether a callable is defined. -/
def loggedDefinition? (log : List Event) (id : CallableId) : Option Bool :=
  (log.filterMap (Event.definition? id)).getLast?

/-- What a log says of a session is so. -/
structure Mirrors (log : List Event) (session : Session) : Prop where
  phase : loggedPhase log = session.phase
  included : log.foldlM Event.replay [] = some session.included
  ids : (log.filterMap Event.updatedId?).eraseDups = session.index.ids
  definitions : ∀ id, loggedDefinition? log id = session.index.definition? id

/-- What has been read of a log is continued by what comes after it. -/
theorem Mirrors.append {log new : List Event} {session after : Session}
    (mirrors : Mirrors log session)
    (phase : ((new.filterMap Event.phase?).getLast?).getD session.phase = after.phase)
    (included : new.foldlM Event.replay session.included = some after.included)
    (ids : (new.filterMap Event.updatedId?).foldl pushNew session.index.ids = after.index.ids)
    (definitions : ∀ id, (loggedDefinition? new id).or (session.index.definition? id) =
      after.index.definition? id) : Mirrors (log ++ new) after where
  phase := by
    rw [loggedPhase, List.filterMap_append, List.getLast?_append, ← phase, ← mirrors.phase,
      loggedPhase]
    cases (new.filterMap Event.phase?).getLast? <;> rfl
  included := by rw [List.foldlM_append, mirrors.included, ← included, Option.bind_eq_bind,
    Option.bind_some]
  ids := by
    rw [List.filterMap_append, ← foldl_pushNew_nil, List.foldl_append, foldl_pushNew_nil,
      mirrors.ids, ids]
  definitions := by
    intro id
    rw [loggedDefinition?, List.filterMap_append, List.getLast?_append, ← definitions id,
      ← mirrors.definitions id, loggedDefinition?, loggedDefinition?]

/-! ### What updates tell -/

section Updates

variable {index : Index} {updated : List CallableId}

theorem phases_updateEvents : (updateEvents index updated).filterMap Event.phase? = [] := by
  rw [List.filterMap_eq_nil_iff]
  intro event told
  obtain ⟨_, _, _, _, rfl⟩ := mem_updateEvents_iff.mp told
  rfl

theorem replay_updateEvents (chosen : List CallableId) :
    (updateEvents index updated).foldlM Event.replay chosen = some chosen := by
  have silent : ∀ event ∈ updateEvents index updated, event.replay chosen = some chosen := by
    intro event told
    obtain ⟨_, _, _, _, rfl⟩ := mem_updateEvents_iff.mp told
    rfl
  generalize updateEvents index updated = new at silent
  induction new with
  | nil => rfl
  | cons event new ih =>
    rw [List.foldlM_cons, silent event List.mem_cons_self]
    exact ih fun other member => silent other (List.mem_cons_of_mem _ member)

variable (wellFormed : WellFormed index.nodes)
include wellFormed

theorem find?_id {id : CallableId} {callable : Callable} (found : index.find? id = some callable) :
    callable.id = id := ((Index.find?_eq_some_iff wellFormed).mp found).2

theorem updatedIds_updateEvents (known : ∀ id ∈ updated, id ∈ index.ids) :
    (updateEvents index updated).filterMap Event.updatedId? = updated.eraseDups := by
  rw [updateEvents, List.filterMap_filterMap]
  refine (List.filterMap_congr ?_).trans List.filterMap_some
  intro id member
  obtain ⟨callable, found⟩ := Index.mem_ids_iff.mp (known id (List.mem_eraseDups.mp member))
  rw [found, Option.map_some, Option.bind_some, Event.updatedId?, find?_id wellFormed found]

/-- All events of one callable tell the same of it, as they are sent after the change. -/
theorem definitions_updateEvents {id : CallableId} {defined : Bool}
    (read : defined ∈ (updateEvents index updated).filterMap (Event.definition? id)) :
    id ∈ updated ∧ index.definition? id = some defined := by
  obtain ⟨event, told, reading⟩ := List.mem_filterMap.mp read
  obtain ⟨other, member, callable, found, rfl⟩ := mem_updateEvents_iff.mp told
  have named := find?_id wellFormed found
  rw [Event.definition?, named] at reading
  split at reading
  · rename_i here
    subst here
    exact ⟨member, by rw [Index.definition?, found, Option.map_some, reading]⟩
  · cases reading

theorem loggedDefinition?_updateEvents {id : CallableId} (known : id ∈ updated → id ∈ index.ids) :
    loggedDefinition? (updateEvents index updated) id =
      if id ∈ updated then index.definition? id else none := by
  rw [loggedDefinition?]
  -- Which of the events is the last does not matter: they agree.
  cases last : ((updateEvents index updated).filterMap (Event.definition? id)).getLast? with
  | some defined =>
    obtain ⟨member, current⟩ := definitions_updateEvents wellFormed (List.mem_of_getLast? last)
    rw [if_pos member, current]
  | none =>
    split
    · -- The callable is listed and known, so one of the events is its own.
      rename_i member
      obtain ⟨callable, found⟩ := Index.mem_ids_iff.mp (known member)
      have told : .callableUpdated callable ∈ updateEvents index updated :=
        mem_updateEvents_iff.mpr ⟨id, member, callable, found, rfl⟩
      have read : callable.isDefinition ∈
          (updateEvents index updated).filterMap (Event.definition? id) :=
        List.mem_filterMap.mpr ⟨_, told, if_pos (find?_id wellFormed found)⟩
      rw [List.getLast?_eq_none_iff.mp last] at read
      cases read
    · rfl

end Updates

/-! ### What each effect tells -/

namespace Mirrors

variable {log : List Event} {session after : Session}

theorem start (displayRoot? : Option Path) : Mirrors [] (.start displayRoot?) where
  phase := rfl
  included := rfl
  ids := rfl
  definitions _ := rfl

theorem enter (mirrors : Mirrors log session) {next : Phase} (phase : after.phase = next)
    (included : after.included = session.included) (ids : after.index.ids = session.index.ids)
    (definitions : ∀ id, after.index.definition? id = session.index.definition? id) :
    Mirrors (log ++ phaseEvents session.phase next) after := by
  apply mirrors.append
  · rw [phase, phaseEvents]
    split
    · rename_i same
      simpa using same
    · simp [Event.phase?]
  · rw [included, phaseEvents]
    split <;> rfl
  · rw [ids, phaseEvents]
    split <;> rfl
  · intro id
    rw [definitions, phaseEvents]
    split <;> rfl

/-- An observer that is told of what an index announces follows the index. -/
theorem update (mirrors : Mirrors log session) {index : Index} {updated : List CallableId}
    (announces : session.index.Announces index updated) (wellFormed : WellFormed index.nodes) :
    Mirrors (log ++ updateEvents index updated) { session with index := index } := by
  apply mirrors.append
  · rw [phases_updateEvents, List.getLast?_nil, Option.getD_none]
  · exact replay_updateEvents session.included
  · rw [updatedIds_updateEvents wellFormed fun id => announces.listed, foldl_pushNew_eraseDups,
      announces.ids]
  · intro id
    rw [loggedDefinition?_updateEvents wellFormed announces.listed]
    split
    · rename_i member
      obtain ⟨callable, found⟩ := Index.mem_ids_iff.mp (announces.listed member)
      rw [Index.definition?, found, Option.map_some, Option.some_or]
    · rename_i unlisted
      rw [Option.none_or, announces.kept id unlisted]

theorem choose (mirrors : Mirrors log session) {id : CallableId} {added : Bool}
    {chosen : List CallableId}
    (replayed : (Event.inclusionChanged id added).replay session.included = some chosen) :
    Mirrors (log ++ [.inclusionChanged id added]) { session with included := chosen } := by
  apply mirrors.append
  · rfl
  · rw [List.foldlM_cons, replayed]
    rfl
  · rfl
  · intro other
    rfl

end Mirrors

/-- What an effect tells is what it does. -/
theorem Effect.mirrors {tools : Toolchain} {before after : Session} {operation : Operation}
    {events log : List Event} (effect : Effect tools before operation after events)
    (wellFormed : WellFormed before.index.nodes) (coherent : before.Coherent)
    (mirrors : Mirrors log before) : Mirrors (log ++ events) after := by
  have later := effect.wellFormed wellFormed
  cases effect with
  | argumentsSet | rootChosen => exact mirrors.enter rfl rfl rfl fun _ => rfl
  | sourceOpened allowed opened =>
    -- The graph that is dropped was empty, so an observer need not be told.
    have low : before.phase.rank < Phase.readyToSelectRoot.rank := by
      revert allowed
      cases before.phase <;> simp [Phase.rank]
    have early : before.phase ≠ .interactive := by
      rintro same
      rw [same] at low
      exact absurd low (by decide)
    have bare := (coherent.index_late low).1
    refine mirrors.enter rfl (coherent.included_late early).symm ?_ fun id => ?_
    · simp [Index.ids, Index.empty, bare]
    · simp [Index.definition?, Index.find?, Index.node?, Index.empty, bare]
  | unitIngested allowed opened listed success =>
    -- The updates are told before the phase, so they are read first.
    have announces := Index.announces_ingest wellFormed success
    rw [← List.append_assoc]
    exact (mirrors.update announces later).enter rfl rfl rfl fun _ => rfl
  | searched allowed opened known grown =>
    exact mirrors.update (grown.announces wellFormed) later
  -- The choice is compared before it changes, which is why no event is redundant.
  | included allowed known new => exact mirrors.choose (if_neg new)
  | excluded allowed member => exact mirrors.choose (if_pos member)
  | includedBefore | excludedBefore | drawn =>
    rw [List.append_nil]
    exact mirrors

/-- After any run, what an observer has been told gives the phase, the choice, the known callables
and which of them are defined. -/
theorem Observed.log_mirrors_session (displayRoot? : Option Path) (requests : List Request) :
    Mirrors (run displayRoot? requests).events (run displayRoot? requests).session := by
  refine coherent_induction (motive := fun observed => Mirrors observed.events observed.session)
    (.start displayRoot?) ?_
  intro request _ before after events wellFormed coherent mirrors effect
  exact effect.mirrors wellFormed coherent mirrors

end CallGraph
