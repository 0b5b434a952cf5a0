import CallGraph.Proofs.Listing.Consistency
import CallGraph.Proofs.Search.Knowable
import CallGraph.Proofs.Session.Reachable
import Mathlib.Data.List.Perm.Subperm

/-!
# Traversals of a graph that grows

Main result: `traversals_end`. Writing a listing and loading what can be reached both come to an
end, although each of their steps may ingest files and so add callables and calls.

Each traversal is taken apart into steps, and a measure falls with every step. What is known so far
cannot give that measure, for it grows. But all that can ever get known is in a list that is fixed
beforehand, and only callables of this list are on a trail or have been seen, each of them once.
Both measures count how many of the list are left: below a line for a listing, where every callable
that is put on a trail leaves fewer for the lines below, and altogether for loading.
-/
namespace CallGraph

/-! ### Runs of steps -/

section Steps

variable {State : Type} {step : State → State → Prop} {Invariant Done : State → Prop}
  {measure : State → Nat} {first last : State} {count : Nat}

/-- A number of steps leads from one state to another. -/
inductive Steps (step : State → State → Prop) : Nat → State → State → Prop where
  | here (state : State) : Steps step 0 state state
  | next {first second last : State} {count : Nat} (made : step first second)
    (rest : Steps step count second last) : Steps step (count + 1) first last

/-- The runs from a state are no longer than some bound, they go on until all is done, and something
holds at every moment. -/
structure Ends (step : State → State → Prop) (Done Holds : State → Prop) (bound : Nat)
    (start : State) : Prop where
  bounded : ∀ count moment, Steps step count start moment → count ≤ bound
  goes_on : ∀ count moment, Steps step count start moment →
    Done moment ∨ ∃ after, step moment after
  always : ∀ count moment, Steps step count start moment → Holds moment

/-- Where an invariant holds, a step can be made until all is done. The invariant holds after it
still, and a measure has fallen. -/
structure Progresses (step : State → State → Prop) (Invariant Done : State → Prop)
    (measure : State → Nat) : Prop where
  falls : ∀ first second, Invariant first → step first second →
    Invariant second ∧ measure second < measure first
  goes_on : ∀ state, Invariant state → Done state ∨ ∃ after, step state after

namespace Progresses

variable (progresses : Progresses step Invariant Done measure) (start : Invariant first)
include progresses start

theorem run (steps : Steps step count first last) :
    Invariant last ∧ count + measure last ≤ measure first := by
  induction steps with
  | here state => exact ⟨start, by omega⟩
  | next made _ ih =>
    obtain ⟨kept, less⟩ := progresses.falls _ _ start made
    obtain ⟨keptToo, bound⟩ := ih kept
    exact ⟨keptToo, by omega⟩

theorem ends {Holds : State → Prop} (holds : ∀ state, Invariant state → Holds state) :
    Ends step Done Holds (measure first) first where
  bounded count moment steps := by
    have := (progresses.run start steps).2
    omega
  goes_on count moment steps := progresses.goes_on moment (progresses.run start steps).1
  always count moment steps := holds moment (progresses.run start steps).1

theorem exists_done : ∃ count last, Steps step count first last ∧ Done last := by
  -- The measure bounds what is left of the run.
  induction bound : measure first using Nat.strongRecOn generalizing first with
  | ind bound ih =>
    rcases progresses.goes_on first start with done | ⟨second, made⟩
    · exact ⟨0, first, .here first, done⟩
    · obtain ⟨kept, less⟩ := progresses.falls first second start made
      obtain ⟨count, last, rest, done⟩ := ih (measure second) (bound ▸ less) kept rfl
      exact ⟨count + 1, last, .next made rest, done⟩

end Progresses

end Steps

/-- Some callables of a pool, each of them once. -/
structure SomeOf (pool chosen : List CallableId) : Prop where
  distinct : chosen.Nodup
  drawn : ∀ id ∈ chosen, id ∈ pool

theorem SomeOf.length_le {pool chosen : List CallableId} (some : SomeOf pool chosen) :
    chosen.length ≤ pool.length :=
  (some.distinct.subperm some.drawn).length_le

theorem SomeOf.nil (pool : List CallableId) : SomeOf pool [] := ⟨List.nodup_nil, by simp⟩

theorem fresh_nil (pool : List CallableId) : fresh pool [] = pool := List.filter_eq_self.mpr (by simp)

theorem Index.length_calleeIds_le {index : Index} (wellFormed : WellFormed index.nodes)
    {pool : List CallableId} (within : ∀ id ∈ index.ids, id ∈ pool) (id : CallableId) :
    (index.calleeIds id).length ≤ pool.length :=
  SomeOf.length_le ⟨nodup_calleeIds wellFormed id, fun callee called =>
    within callee (callee_known wellFormed called)⟩

/-! ### Writing a listing -/

/-- What is on the way down to a line while it is written: the callables above it, and its own
unless it is cut. -/
def ListingLine.path (line : ListingLine) : List CallableId :=
  if line.id ∈ line.trail then line.trail else line.trail ++ [line.id]

/-- A listing in the making: the graph so far, and the lines that are still to be written. -/
structure ListingMoment where
  index : Index
  agenda : List ListingLine

namespace ListingMoment

/-- How many lines can be left if all callables are in a pool. None has more callees than there are
callables. -/
def weight (pool : List CallableId) (moment : ListingMoment) : Nat :=
  agendaWeight pool pool.length moment.agenda

/-- All callables of a listing in the making are in a pool, and no trail has one twice. -/
structure Within (pool : List CallableId) (moment : ListingMoment) : Prop where
  wellFormed : WellFormed moment.index.nodes
  index_within : ∀ id ∈ moment.index.ids, id ∈ pool
  lines_known : ∀ line ∈ moment.agenda, line.id ∈ moment.index.ids
  trails : ∀ line ∈ moment.agenda, SomeOf pool line.trail

/-- What is known and what is on the way down to any line comes from a pool, and nothing of it is on
one way twice. So no line is deeper than there are callables in the pool. -/
structure FromPool (pool : List CallableId) (moment : ListingMoment) : Prop where
  known : ∀ id ∈ moment.index.ids, id ∈ pool
  paths : ∀ line ∈ moment.agenda, SomeOf pool line.path
  shallow : ∀ line ∈ moment.agenda, line.path.length ≤ pool.length

theorem Within.path {pool : List CallableId} {moment : ListingMoment}
    (within : moment.Within pool) {line : ListingLine} (member : line ∈ moment.agenda) :
    SomeOf pool line.path := by
  have trail := within.trails line member
  unfold ListingLine.path
  split
  · exact trail
  · rename_i new
    refine ⟨List.nodup_append.mpr ⟨trail.distinct, List.pairwise_singleton _ _, ?_⟩, ?_⟩
    · intro above member here isHere same
      rw [List.mem_singleton.mp isHere] at same
      exact new (same ▸ member)
    · intro id onPath
      rcases List.mem_append.mp onPath with above | here
      · exact trail.drawn id above
      · rw [List.mem_singleton.mp here]
        exact within.index_within _ (within.lines_known line member)

theorem Within.fromPool {pool : List CallableId} {moment : ListingMoment}
    (within : moment.Within pool) : moment.FromPool pool where
  known := within.index_within
  paths _ member := within.path member
  shallow _ member := (within.path member).length_le

end ListingMoment

namespace DefinitionSearch

variable {search : DefinitionSearch} {start : Index}

/-- The next line of a listing is written. A line that is not cut is followed: the definition of its
callable is searched for, and then the lines for the callees come next. -/
inductive Writes (search : DefinitionSearch) : ListingMoment → ListingMoment → Prop where
  | cut {index : Index} {line : ListingLine} {rest : List ListingLine}
    (old : line.id ∈ line.trail) : Writes search ⟨index, line :: rest⟩ ⟨index, rest⟩
  | follow {index grown : Index} {line : ListingLine} {rest : List ListingLine}
    {callable : Callable} (new : line.id ∉ line.trail)
    (found : index.find? line.id = some callable)
    (defined : search.define index callable = .ok grown) :
    Writes search ⟨index, line :: rest⟩ ⟨grown, line.children grown ++ rest⟩

theorem Writes.keeps {first second : ListingMoment} (written : search.Writes first second)
    (within : first.Within (search.knowable start)) : second.Within (search.knowable start) := by
  cases written with
  | cut old =>
    exact ⟨within.wellFormed, within.index_within,
      fun other member => within.lines_known other (List.mem_cons_of_mem _ member),
      fun other member => within.trails other (List.mem_cons_of_mem _ member)⟩
  | @follow index grown line rest callable new found defined =>
    -- Finding the definition may have ingested files, but only files of the catalog.
    obtain ⟨⟨updated, ingests⟩, _⟩ := settled_of_define within.wellFormed found defined
    have later := ingests.wellFormed within.wellFormed
    refine ⟨later, ingests.ids_subset_knowable within.index_within, ?_, ?_⟩
    · intro other member
      rcases List.mem_append.mp member with below | waiting
      · rw [ListingLine.children_eq_map_calleeIds] at below
        obtain ⟨callee, called, rfl⟩ := List.mem_map.mp below
        exact Index.callee_known later called
      · exact (ingests.announces within.wellFormed).known
          (within.lines_known other (List.mem_cons_of_mem _ waiting))
    · intro other member
      rcases List.mem_append.mp member with below | waiting
      · -- The trail of a line below is what is on the way to this one.
        obtain ⟨callee, _, rfl⟩ := List.mem_map.mp below
        have path := within.path List.mem_cons_self
        rwa [ListingLine.path, if_neg new] at path
      · exact within.trails other (List.mem_cons_of_mem _ waiting)

theorem Writes.weight_lt {first second : ListingMoment} (written : search.Writes first second)
    (within : first.Within (search.knowable start)) :
    second.weight (search.knowable start) < first.weight (search.knowable start) := by
  have after := written.keeps within
  cases written with
  | @cut index line rest old =>
    have positive := line.weight_pos (search.knowable start) (search.knowable start).length
    simp only [ListingMoment.weight, agendaWeight_cons]
    omega
  | @follow index grown line rest callable new found defined =>
    have inPool : line.id ∈ search.knowable start :=
      within.index_within _ (within.lines_known line List.mem_cons_self)
    -- For all lines below, one callable fewer is left.
    have few : (grown.calleesOf line.id).length ≤ (search.knowable start).length := by
      simpa [Index.calleeIds] using
        Index.length_calleeIds_le after.wellFormed after.index_within line.id
    have lighter := ListingLine.agendaWeight_children_lt few inPool new
    simp only [ListingMoment.weight, agendaWeight_cons, agendaWeight_append]
    omega

theorem progresses_writes (search : DefinitionSearch) (start : Index) :
    Progresses search.Writes (ListingMoment.Within (search.knowable start)) (·.agenda = [])
      (ListingMoment.weight (search.knowable start)) where
  falls first second within written := ⟨written.keeps within, written.weight_lt within⟩
  goes_on := by
    rintro ⟨index, agenda⟩ within
    cases agenda with
    | nil => exact .inl rfl
    | cons line rest =>
      -- What is on the agenda is known, so neither the look-up nor the search can fail.
      right
      by_cases cut : line.id ∈ line.trail
      · exact ⟨_, .cut cut⟩
      · obtain ⟨callable, found⟩ := Index.mem_ids_iff.mp (within.lines_known line List.mem_cons_self)
        obtain ⟨grown, _, defined, _⟩ := search.define_settles within.wellFormed found
        exact ⟨_, .follow cut found defined⟩

theorem list_of_writes {first second : ListingMoment} {last : Index} {lines : List ListingLine}
    (written : search.Writes first second)
    (listed : search.list second.index second.agenda = .ok (last, lines)) :
    ∃ line, search.list first.index first.agenda = .ok (last, line :: lines) := by
  cases written with
  | cut old => exact ⟨_, list_again old listed⟩
  | follow new found defined => exact ⟨_, list_visit new found defined listed⟩

/-- Steps to the end write what the listing consists of, one line each. -/
theorem list_of_steps {first last : ListingMoment} {count : Nat}
    (steps : Steps search.Writes count first last) (done : last.agenda = []) :
    ∃ lines, search.list first.index first.agenda = .ok (last.index, lines) ∧
      lines.length = count := by
  induction steps with
  | here state => exact ⟨[], by rw [done, list_nil], rfl⟩
  | next made _ ih =>
    obtain ⟨lines, listed, length⟩ := ih done
    obtain ⟨line, listedToo⟩ := list_of_writes made listed
    exact ⟨line :: lines, listedToo, by rw [List.length_cons, length]⟩

theorem list_ends (search : DefinitionSearch) {index : Index} (wellFormed : WellFormed index.nodes)
    {entry : CallableId} (known : entry ∈ index.ids) :
    let pool := search.knowable index
    (∃ last lines, search.list index [⟨[], entry⟩] = .ok (last, lines) ∧
      Steps search.Writes lines.length ⟨index, [⟨[], entry⟩]⟩ ⟨last, []⟩) ∧
    Ends search.Writes (·.agenda = []) (ListingMoment.FromPool pool)
      (Nat.pow (pool.length + 1) pool.length) ⟨index, [⟨[], entry⟩]⟩ := by
  intro pool
  have within : (⟨index, [⟨[], entry⟩]⟩ : ListingMoment).Within pool :=
    ⟨wellFormed, fun id member => mem_knowable_iff.mpr (.inl member), by simpa using known,
      by simpa using SomeOf.nil pool⟩
  have progresses := search.progresses_writes index
  constructor
  · obtain ⟨count, ⟨last, _⟩, steps, rfl⟩ := progresses.exists_done within
    obtain ⟨lines, listed, rfl⟩ := list_of_steps steps rfl
    exact ⟨last, lines, listed, steps⟩
  · have weight : ListingMoment.weight pool ⟨index, [⟨[], entry⟩]⟩ =
        Nat.pow (pool.length + 1) pool.length := by
      simp [ListingMoment.weight, agendaWeight, ListingLine.weight, fresh_nil]
    rw [← weight]
    exact progresses.ends within fun moment holds => holds.fromPool

end DefinitionSearch

/-! ### Loading what can be reached -/

/-- A load in progress: the session so far, the callables that have been seen, and those that are
still to be visited. -/
structure LoadingMoment where
  session : Session
  seen : List CallableId
  agenda : List CallableId

namespace LoadingMoment

/-- A session loads what a search finds, its callables can be known from some graph on, and none has
been seen twice. -/
structure Within (search : DefinitionSearch) (start : Index) (moment : LoadingMoment) : Prop where
  interactive : moment.session.phase = .interactive
  opened : moment.session.catalog? = some search.catalog
  keepSystem : moment.session.keepSystem = search.keepSystem
  wellFormed : WellFormed moment.session.index.nodes
  index_within : ∀ id ∈ moment.session.index.ids, id ∈ search.knowable start
  agenda_known : ∀ id ∈ moment.agenda, id ∈ moment.session.index.ids
  seen : SomeOf (search.knowable start) moment.seen

/-- What is known and what has been seen comes from a pool, and nothing has been seen twice. So no
more has been seen than there is in the pool. -/
structure FromPool (pool : List CallableId) (moment : LoadingMoment) : Prop where
  known : ∀ id ∈ moment.session.index.ids, id ∈ pool
  seen : SomeOf pool moment.seen
  few : moment.seen.length ≤ pool.length

/-- How many steps can be left if all callables are in a pool: each callable that has not been seen
can add as many to the agenda as there are. -/
def weightWithin (pool : List CallableId) (moment : LoadingMoment) : Nat :=
  (fresh pool moment.seen).length * (pool.length + 1) + moment.agenda.length

end LoadingMoment

namespace Session

variable {search : DefinitionSearch} {start : Index}

/-- The next callable is taken off the agenda. One that has not been seen is visited: its definition
is searched for, and then its callees come next, the last of them first. -/
inductive Loads (tools : Toolchain) : LoadingMoment → LoadingMoment → Prop where
  | again {session : Session} {seen rest : List CallableId} {id : CallableId} (old : id ∈ seen) :
    Loads tools ⟨session, seen, id :: rest⟩ ⟨session, seen, rest⟩
  | visit {session : Session} {seen rest : List CallableId} {id : CallableId} {callable : Callable}
    {step : Step Unit} (new : id ∉ seen) (found : session.index.find? id = some callable)
    (defined : session.define tools callable = .ok step) :
    Loads tools ⟨session, seen, id :: rest⟩
      ⟨step.session, id :: seen, (step.session.index.calleeIds id).reverse ++ rest⟩

/-- A visit succeeds, and of the session it changes the graph only, by ingests. -/
theorem define_within {moment : LoadingMoment} (within : moment.Within search start)
    {id : CallableId} {callable : Callable}
    (found : moment.session.index.find? id = some callable) :
    ∃ after events updated, moment.session.define search.tools callable =
      .ok ⟨{ moment.session with index := after }, events, ()⟩ ∧
      search.Ingests moment.session.index after updated := by
  obtain ⟨after, updated, defined, ingests, _⟩ := search.define_settles within.wellFormed found
  have same : (⟨search.tools, search.catalog, moment.session.keepSystem⟩ : DefinitionSearch) =
      search := by rw [within.keepSystem]
  obtain ⟨events, done⟩ := define_of_search within.interactive within.opened (same ▸ defined)
  exact ⟨after, events, updated, done, ingests⟩

theorem Loads.keeps {first second : LoadingMoment} (loaded : Loads search.tools first second)
    (within : first.Within search start) : second.Within search start := by
  cases loaded with
  | again old =>
    exact { within with
      agenda_known := fun other member => within.agenda_known other (List.mem_cons_of_mem _ member) }
  | @visit session seen rest id callable step new found defined =>
    obtain ⟨after, events, updated, done, ingests⟩ := define_within within found
    obtain rfl := Except.ok.inj (done.symm.trans defined)
    have later := ingests.wellFormed within.wellFormed
    have known := within.index_within id (within.agenda_known id List.mem_cons_self)
    refine { within with
      wellFormed := later
      index_within := ingests.ids_subset_knowable within.index_within
      agenda_known := fun other member => ?_
      seen := ⟨List.nodup_cons.mpr ⟨new, within.seen.distinct⟩,
        List.forall_mem_cons.mpr ⟨known, within.seen.drawn⟩⟩ }
    rcases List.mem_append.mp member with called | waiting
    · exact Index.callee_known later (List.mem_reverse.mp called)
    · exact (ingests.announces within.wellFormed).known
        (within.agenda_known other (List.mem_cons_of_mem _ waiting))

theorem Loads.weight_lt {first second : LoadingMoment} (loaded : Loads search.tools first second)
    (within : first.Within search start) :
    second.weightWithin (search.knowable start) < first.weightWithin (search.knowable start) := by
  have after := loaded.keeps within
  cases loaded with
  | again old =>
    simp only [LoadingMoment.weightWithin, List.length_cons]
    omega
  | @visit session seen rest id callable step new found defined =>
    -- One callable fewer has not been seen, and that outweighs all that the visit adds.
    have few := Index.length_calleeIds_le after.wellFormed after.index_within id
    have fewer := length_fresh_cons_lt
      (within.index_within id (within.agenda_known id List.mem_cons_self)) new
    have product := Nat.mul_le_mul_right ((search.knowable start).length + 1)
      (Nat.succ_le_of_lt fewer)
    rw [Nat.succ_mul] at product
    simp only [LoadingMoment.weightWithin, List.length_append, List.length_reverse,
      List.length_cons] at few ⊢
    omega

theorem progresses_loads (search : DefinitionSearch) (start : Index) :
    Progresses (Loads search.tools) (LoadingMoment.Within search start) (·.agenda = [])
      (LoadingMoment.weightWithin (search.knowable start)) where
  falls first second within loaded := ⟨loaded.keeps within, loaded.weight_lt within⟩
  goes_on := by
    rintro ⟨session, seen, agenda⟩ within
    cases agenda with
    | nil => exact .inl rfl
    | cons id rest =>
      right
      by_cases old : id ∈ seen
      · exact ⟨_, .again old⟩
      · obtain ⟨callable, found⟩ := Index.mem_ids_iff.mp (within.agenda_known id List.mem_cons_self)
        obtain ⟨_, _, _, done, _⟩ := define_within within found
        exact ⟨_, .visit old found done⟩

/-- Steps to the end load what the whole load does. -/
theorem defineAll_of_steps {tools : Toolchain} {first last : LoadingMoment} {count : Nat}
    (steps : Steps (Loads tools) count first last) (done : last.agenda = []) :
    ∃ events, defineAll tools first.session first.seen first.agenda =
      .ok ⟨last.session, events, ()⟩ := by
  induction steps with
  | here state => exact ⟨[], by rw [done, defineAll]⟩
  | next made _ ih =>
    obtain ⟨events, rest⟩ := ih done
    cases made with
    | again old => exact ⟨events, by rw [defineAll, dif_pos old, rest]⟩
    | @visit _ _ _ _ _ step new found defined =>
      refine ⟨step.events ++ events, ?_⟩
      rw [defineAll_visit new found defined, rest]
      rfl

theorem defineReachable_ends {session : Session} (interactive : session.phase = .interactive)
    (opened : session.catalog? = some search.catalog)
    (keepSystem : session.keepSystem = search.keepSystem)
    (wellFormed : WellFormed session.index.nodes) {root : CallableId}
    (known : root ∈ session.index.ids) :
    let pool := search.knowable session.index
    (∃ step count seen, session.defineReachable search.tools root = .ok step ∧
      Steps (Loads search.tools) count ⟨session, [], [root]⟩ ⟨step.session, seen, []⟩) ∧
    Ends (Loads search.tools) (·.agenda = []) (LoadingMoment.FromPool pool)
      (pool.length * (pool.length + 1) + 1) ⟨session, [], [root]⟩ := by
  intro pool
  have within : (⟨session, [], [root]⟩ : LoadingMoment).Within search session.index :=
    ⟨interactive, opened, keepSystem, wellFormed,
      fun id member => DefinitionSearch.mem_knowable_iff.mpr (.inl member), by simpa using known,
      .nil pool⟩
  have progresses := progresses_loads search session.index
  constructor
  · obtain ⟨count, ⟨last, seen, _⟩, steps, rfl⟩ := progresses.exists_done within
    obtain ⟨events, loaded⟩ := defineAll_of_steps steps rfl
    exact ⟨_, count, seen, loaded, steps⟩
  · have weight : LoadingMoment.weightWithin pool ⟨session, [], [root]⟩ =
        pool.length * (pool.length + 1) + 1 := by
      rw [LoadingMoment.weightWithin, fresh_nil]
      rfl
    rw [← weight]
    exact progresses.ends within fun moment holds =>
      ⟨holds.index_within, holds.seen, holds.seen.length_le⟩

end Session

/-- Writing the listing below a known callable and loading all that it leads to end, after no more
steps than a bound that is fixed beforehand. At every moment the callables that are known, those on
the way down to any line and those that have been seen are callables that were known at the start
or that files of the catalog contribute; none is on the way down to a line twice, and none has been
seen twice. -/
theorem traversals_end (search : DefinitionSearch) {index : Index} (reachable : index.Reachable)
    {id : CallableId} (known : id ∈ index.ids) :
    let pool := search.knowable index
    ((∃ last lines, search.list index [⟨[], id⟩] = .ok (last, lines) ∧
        Steps search.Writes lines.length ⟨index, [⟨[], id⟩]⟩ ⟨last, []⟩) ∧
      Ends search.Writes (·.agenda = []) (ListingMoment.FromPool pool)
        (Nat.pow (pool.length + 1) pool.length) ⟨index, [⟨[], id⟩]⟩) ∧
    ∀ session : Session, session.phase = .interactive →
      session.catalog? = some search.catalog → session.keepSystem = search.keepSystem →
      session.index = index →
      (∃ step count seen, session.defineReachable search.tools id = .ok step ∧
        Steps (Session.Loads search.tools) count ⟨session, [], [id]⟩ ⟨step.session, seen, []⟩) ∧
      Ends (Session.Loads search.tools) (·.agenda = []) (LoadingMoment.FromPool pool)
        (pool.length * (pool.length + 1) + 1) ⟨session, [], [id]⟩ := by
  intro pool
  refine ⟨search.list_ends reachable.wellFormed known, ?_⟩
  rintro session interactive opened keepSystem rfl
  exact Session.defineReachable_ends interactive opened keepSystem reachable.wellFormed known

section Example

private def mutualFunction (file : Path) (name : String) (isDefinition : Bool) : Fact :=
  .callable ⟨.function, [], name, name ++ "()", "void", isDefinition, file, file⟩

private def mutualSources : FileSystem :=
  [(⟨"/w/a.cpp"⟩, "ping pong lost"), (⟨"/w/b.cpp"⟩, "pong ping"), (⟨"/w/c.cpp"⟩, "lost")].foldl
    (fun files (path, text) => files.addFile path (Utf8.encode text)) (.empty ⟨"/w"⟩)

/-- In `a.cpp`, `ping()` calls `pong()` and `lost()`, and in `b.cpp`, `pong()` calls `ping()` and
`bounce()`. Neither defines `lost()`, and the analysis of `c.cpp`, which mentions it, fails. -/
private def mutualSearch : DefinitionSearch where
  tools := ⟨⟨mutualSources, fun path _ =>
    if path = ⟨"/w/a.cpp"⟩ then .ok ⟨path, [mutualFunction path "pong" false,
      mutualFunction path "lost" false, mutualFunction path "ping" true,
      .call ⟨"ping()"⟩ ⟨"pong()"⟩, .call ⟨"ping()"⟩ ⟨"lost()"⟩], []⟩
    else if path = ⟨"/w/b.cpp"⟩ then .ok ⟨path, [mutualFunction path "ping" false,
      mutualFunction path "bounce" true, mutualFunction path "pong" true,
      .call ⟨"pong()"⟩ ⟨"ping()"⟩, .call ⟨"pong()"⟩ ⟨"bounce()"⟩], []⟩
    else .error (.analysisFailed path [])⟩, fun _ => []⟩
  catalog := ⟨⟨"/w"⟩, [(⟨"/w/a.cpp"⟩, []), (⟨"/w/b.cpp"⟩, []), (⟨"/w/c.cpp"⟩, [])]⟩
  keepSystem := false

private def mutualIndex : Index :=
  .run ⟨none⟩ [⟨mutualSearch.tools.toWorkspace, [], ⟨"/w/a.cpp"⟩, []⟩]

private def mutualSession : Session :=
  { Session.start none with
    phase := .interactive
    catalog? := some mutualSearch.catalog
    index := mutualIndex }

/-- Two functions that call each other, one that is unknown at first, and one whose definition is
searched for in vain: the listing ends after 625 lines at most, and the load after 21 steps. -/
theorem mutual_traversals_end :
    mutualIndex.Reachable ∧ (⟨"ping()"⟩ : CallableId) ∈ mutualIndex.ids ∧
      mutualSession.phase = .interactive ∧ mutualSession.catalog? = some mutualSearch.catalog ∧
      mutualSession.keepSystem = mutualSearch.keepSystem ∧ mutualSession.index = mutualIndex ∧
      mutualIndex.ids = [⟨"pong()"⟩, ⟨"lost()"⟩, ⟨"ping()"⟩] ∧
      (∃ last lines, mutualSearch.list mutualIndex [⟨[], ⟨"ping()"⟩⟩] = .ok (last, lines) ∧
        lines.length ≤ 625) ∧
      (∃ step, mutualSession.defineReachable mutualSearch.tools ⟨"ping()"⟩ = .ok step) ∧
      ∀ count moment, Steps (Session.Loads mutualSearch.tools) count
        ⟨mutualSession, [], [⟨"ping()"⟩]⟩ moment → count ≤ 21 ∧
          SomeOf [⟨"pong()"⟩, ⟨"lost()"⟩, ⟨"ping()"⟩, ⟨"bounce()"⟩] moment.seen := by
  have reachable : mutualIndex.Reachable := ⟨_, _, rfl⟩
  have ids : mutualIndex.ids = [⟨"pong()"⟩, ⟨"lost()"⟩, ⟨"ping()"⟩] := by decide +kernel
  have known : (⟨"ping()"⟩ : CallableId) ∈ mutualIndex.ids := by simp [ids]
  have pool : mutualSearch.knowable mutualIndex =
      [⟨"pong()"⟩, ⟨"lost()"⟩, ⟨"ping()"⟩, ⟨"bounce()"⟩] := by decide +kernel
  obtain ⟨⟨⟨last, lines, listed, written⟩, writing⟩, loads⟩ :=
    traversals_end mutualSearch reachable known
  obtain ⟨⟨step, _, _, loaded, _⟩, loading⟩ := loads mutualSession rfl rfl rfl rfl
  rw [pool] at writing loading
  exact ⟨reachable, known, rfl, rfl, rfl, rfl, ids,
    ⟨last, lines, listed, writing.bounded _ _ written⟩, ⟨step, loaded⟩,
    fun count moment steps => ⟨loading.bounded count moment steps,
      (loading.always count moment steps).seen⟩⟩

end Example

end CallGraph
