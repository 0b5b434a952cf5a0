import CallGraph.Proofs.Search.Settled
import CallGraph.Proofs.Session.Invariant
import CallGraph.Session.Reachable

/-!
# Loading what can be reached

Main results: `defineReachable_settles` and `reachable_callable_left_unsettled`. Loading the
definitions of what can be reached from a known root succeeds, and each callable that is visited is
settled then. A callable that can be reached in the end need not have been visited: one that had no
callees when its turn came can get some later, when a file is ingested for the sake of another
callable, and is not visited again. Nothing else keeps a callable that can be reached from being
settled.

The walk is told by its visits (`Walk`). A callable that has callees when it is visited keeps just
these, so what is visited is closed under calls but for those that came late.
-/
namespace CallGraph

/-- A callable, and the graph right after its definition has been searched for. -/
structure Visit where
  id : CallableId
  index : Index

/-- A callable without callees at its visit has some in a later graph. -/
def Visit.Extended (visit : Visit) (after : Index) : Prop :=
  visit.index.calleeIds visit.id = [] ∧ after.calleeIds visit.id ≠ []

/-- The visits that lead from one graph to another, past the callables that have been seen, while
an agenda is worked off. -/
inductive Walk (search : DefinitionSearch) :
    Index → List CallableId → List CallableId → List Visit → Index → Prop where
  | done (index : Index) (seen : List CallableId) : Walk search index seen [] [] index
  | again {index after : Index} {seen agenda : List CallableId} {id : CallableId}
    {visits : List Visit} (old : id ∈ seen) (rest : Walk search index seen agenda visits after) :
    Walk search index seen (id :: agenda) visits after
  | visit {index middle after : Index} {seen agenda : List CallableId} {id : CallableId}
    {callable : Callable} {visits : List Visit} (new : id ∉ seen)
    (found : index.find? id = some callable) (defined : search.define index callable = .ok middle)
    (rest : Walk search middle (id :: seen) ((middle.calleeIds id).reverse ++ agenda) visits
      after) :
    Walk search index seen (id :: agenda) (⟨id, middle⟩ :: visits) after

namespace Walk

variable {search : DefinitionSearch} {index after : Index} {seen agenda : List CallableId}
  {visits : List Visit}

theorem ingests (walk : Walk search index seen agenda visits after)
    (wellFormed : WellFormed index.nodes) : ∃ updated, search.Ingests index after updated := by
  induction walk with
  | done index => exact ⟨[], .none index⟩
  | again _ _ ih => exact ih wellFormed
  | visit _ found defined _ ih =>
    obtain ⟨⟨first, here⟩, _⟩ := DefinitionSearch.settled_of_define wellFormed found defined
    obtain ⟨second, later⟩ := ih (here.wellFormed wellFormed)
    exact ⟨first ++ second, here.trans later⟩

/-- What is visited is settled then, and the graph only grows after the visit. -/
theorem grows_from_visit (walk : Walk search index seen agenda visits after)
    (wellFormed : WellFormed index.nodes) {visit : Visit} (member : visit ∈ visits) :
    WellFormed visit.index.nodes ∧ search.Settled visit.index visit.id ∧
      ∃ updated, search.Ingests visit.index after updated := by
  induction walk with
  | done => cases member
  | again _ _ ih => exact ih wellFormed member
  | visit _ found defined rest ih =>
    obtain ⟨⟨_, here⟩, settled⟩ := DefinitionSearch.settled_of_define wellFormed found defined
    have later := here.wellFormed wellFormed
    rcases List.mem_cons.mp member with rfl | below
    · exact ⟨later, settled, rest.ingests later⟩
    · exact ih later below

theorem visits_agenda (walk : Walk search index seen agenda visits after) {id : CallableId}
    (waiting : id ∈ agenda) : id ∈ seen ∨ id ∈ visits.map Visit.id := by
  induction walk with
  | done => cases waiting
  | again old _ ih =>
    rcases List.mem_cons.mp waiting with rfl | later
    · exact .inl old
    · exact ih later
  | @visit _ _ _ _ _ first _ _ _ _ _ _ ih =>
    rw [List.map_cons, List.mem_cons]
    by_cases here : id = first
    · exact .inr (.inl here)
    · have later := (List.mem_cons.mp waiting).resolve_left here
      refine (ih (List.mem_append_right _ later)).imp (fun old => ?_) .inr
      exact (List.mem_cons.mp old).resolve_left here

/-- The callees that a callable has at its visit are visited as well. -/
theorem visits_callees (walk : Walk search index seen agenda visits after) {visit : Visit}
    (member : visit ∈ visits) {callee : CallableId}
    (called : visit.index.HasCall visit.id callee) :
    callee ∈ seen ∨ callee ∈ visits.map Visit.id := by
  induction walk with
  | done => cases member
  | again _ _ ih => exact ih member
  | @visit _ _ _ seen _ first _ later _ _ _ rest ih =>
    rw [List.map_cons, List.mem_cons]
    have visited : callee ∈ first :: seen ∨ callee ∈ later.map Visit.id := by
      rcases List.mem_cons.mp member with rfl | below
      · exact rest.visits_agenda (List.mem_append_left _ (List.mem_reverse.mpr called))
      · exact ih below
    rcases visited with old | afterwards
    · exact (List.mem_cons.mp old).symm.imp_right .inl
    · exact .inr (.inr afterwards)

/-- What can be reached in the end has been visited, unless the way there leads past a callable
that was extended after its visit. -/
theorem visits_reachable {root : CallableId} (walk : Walk search index [] [root] visits after)
    (wellFormed : WellFormed index.nodes) {id : CallableId} (reaches : after.Reaches root id) :
    id ∈ visits.map Visit.id ∨ ∃ visit ∈ visits, visit.Extended after ∧
      after.Reaches root visit.id ∧ after.Reaches visit.id id := by
  induction reaches with
  | refl => exact .inl ((walk.visits_agenda (List.mem_singleton_self root)).resolve_left (by simp))
  | @tail caller callee reachesCaller call ih =>
    rcases ih with visited | ⟨visit, member, extended, before, onward⟩
    · obtain ⟨visit, member, rfl⟩ := List.mem_map.mp visited
      by_cases late : visit.index.calleeIds visit.id = []
      · exact .inr ⟨visit, member, ⟨late, List.ne_nil_of_mem call⟩, reachesCaller, .single call⟩
      · -- A callable that has callees keeps them, so this one is a callee since the visit.
        obtain ⟨first, called⟩ := List.exists_mem_of_ne_nil _ late
        obtain ⟨atVisit, _, _, grown⟩ := walk.grows_from_visit wellFormed member
        have same := Index.calleeIds_of_call atVisit (grown.wellFormed atVisit)
          (grown.extendsNodes atVisit) called
        rw [Index.HasCall, same] at call
        exact .inl ((walk.visits_callees member call).resolve_left (by simp))
    · exact .inr ⟨visit, member, extended, before, onward.tail call⟩

end Walk

namespace Session

variable {tools : Toolchain} {session : Session} {catalog : Catalog}

/-- In the last phase a session makes a callable a definition as a search does. -/
theorem define_of_search (interactive : session.phase = .interactive)
    (opened : session.catalog? = some catalog) {callable : Callable} {after : Index}
    (defined : DefinitionSearch.define ⟨tools, catalog, session.keepSystem⟩ session.index callable =
      .ok after) :
    ∃ events, session.define tools callable =
      .ok ⟨{ session with index := after }, events, ()⟩ := by
  unfold define
  unfold DefinitionSearch.define at defined
  split at defined
  · rename_i final
    cases defined
    exact ⟨[], by rw [if_pos final]⟩
  · rename_i declared
    rw [if_neg declared, loadDefinition, SessionM.step, SessionM.run_loadDefinition,
      if_pos (List.mem_singleton.mpr interactive), opened]
    unfold DefinitionSearch.resolve at defined
    dsimp only
    cases searched : (DefinitionSearch.resolveInPlace ⟨tools, catalog, session.keepSystem⟩
        callable.id).run session.index with
    | error error reached =>
      rw [searched] at defined
      cases defined
    | ok resolution reached =>
      rw [searched] at defined
      cases defined
      exact ⟨_, rfl⟩

theorem defineAll_visit {seen rest : List CallableId} {id : CallableId} {callable : Callable}
    {step : Step Unit} (new : id ∉ seen) (found : session.index.find? id = some callable)
    (here : session.define tools callable = .ok step) :
    defineAll tools session seen (id :: rest) =
      (defineAll tools step.session (id :: seen)
        ((step.session.index.calleeIds id).reverse ++ rest)).map
          fun last => { last with events := step.events ++ last.events } := by
  rw [defineAll, dif_neg new]
  -- The definition carries along what it has found, so the results are compared case by case.
  split
  · rename_i unknown
    rw [found] at unknown
    cases unknown
  · rename_i known
    rw [found, Option.some.injEq] at known
    subst known
    split
    · rename_i failure
      rw [here] at failure
      cases failure
    · rename_i success
      rw [here, Except.ok.injEq] at success
      subst success
      rfl

/-- Where there is a walk, the definitions are loaded along it. -/
theorem defineAll_of_walk (interactive : session.phase = .interactive)
    (opened : session.catalog? = some catalog) {index after : Index}
    {seen agenda : List CallableId} {visits : List Visit}
    (walk : Walk ⟨tools, catalog, session.keepSystem⟩ index seen agenda visits after) :
    ∃ events, defineAll tools { session with index := index } seen agenda =
      .ok ⟨{ session with index := after }, events, ()⟩ := by
  induction walk with
  | done => exact ⟨[], by rw [defineAll]⟩
  | again old _ ih =>
    obtain ⟨events, rest⟩ := ih
    exact ⟨events, by rw [defineAll, dif_pos old, rest]⟩
  | @visit index _ _ _ _ _ _ _ new found defined _ ih =>
    obtain ⟨events, here⟩ :=
      @define_of_search _ { session with index := index } _ interactive opened _ _ defined
    obtain ⟨later, rest⟩ := ih
    refine ⟨events ++ later, ?_⟩
    rw [defineAll_visit new found here, rest]
    rfl

theorem defineReachable_of_walk (interactive : session.phase = .interactive)
    (opened : session.catalog? = some catalog) {root : CallableId} {visits : List Visit}
    {after : Index} (walk : Walk ⟨tools, catalog, session.keepSystem⟩ session.index [] [root]
      visits after) :
    ∃ step, session.defineReachable tools root = .ok step ∧ step.session.index = after := by
  obtain ⟨events, loaded⟩ := defineAll_of_walk interactive opened walk
  exact ⟨_, loaded, rfl⟩

/-- With all callables on its agenda known, a session in the last phase has a walk to go. -/
theorem exists_walk (interactive : session.phase = .interactive)
    (opened : session.catalog? = some catalog) (wellFormed : WellFormed session.index.nodes)
    {seen agenda : List CallableId} (known : ∀ id ∈ agenda, id ∈ session.index.ids) :
    ∃ visits after,
      Walk ⟨tools, catalog, session.keepSystem⟩ session.index seen agenda visits after := by
  -- Over the calls of the load itself, for they end.
  fun_induction defineAll tools session seen agenda with
  | case1 session seen => exact ⟨[], _, .done _ _⟩
  | case2 session seen id rest old ih =>
    obtain ⟨visits, after, walk⟩ := ih interactive opened wellFormed
      fun other member => known other (List.mem_cons_of_mem id member)
    exact ⟨visits, after, .again old walk⟩
  | case3 session seen id rest new unknown =>
    exact absurd (known id List.mem_cons_self) (Index.find?_eq_none_iff.mp unknown)
  | case4 session seen id rest new callable found error failure =>
    obtain ⟨after, _, defined, _⟩ := DefinitionSearch.define_settles
      ⟨tools, catalog, session.keepSystem⟩ wellFormed found
    obtain ⟨events, success⟩ := define_of_search interactive opened defined
    rw [success] at failure
    cases failure
  | case5 session seen id rest new callable found step success callees ih =>
    obtain ⟨middle, updated, defined, ingests, _⟩ := DefinitionSearch.define_settles
      ⟨tools, catalog, session.keepSystem⟩ wellFormed found
    obtain ⟨events, here⟩ := define_of_search interactive opened defined
    rw [here, Except.ok.injEq] at success
    subst success
    have later := ingests.wellFormed wellFormed
    have stillKnown (other) (member : other ∈ callees.reverse ++ rest) : other ∈ middle.ids := by
      rcases List.mem_append.mp member with called | waiting
      · have isCallee : middle.HasCall id other := List.mem_reverse.mp called
        exact Index.callee_known later isCallee
      · exact (ingests.announces wellFormed).known (known other (List.mem_cons_of_mem id waiting))
    obtain ⟨visits, after, walk⟩ := ih interactive opened later stillKnown
    exact ⟨_, after, .visit new found defined walk⟩

end Session

namespace Observed

/-- After any run, in the last phase, loading the definitions of all that a known root leads to
succeeds. What can be reached from the root then is settled, or it is reached past a callable that
had no callees when its own definition had been searched for, and has some now. -/
theorem defineReachable_settles (displayRoot? : Option Path) (requests : List Request)
    (interactive : (run displayRoot? requests).session.phase = .interactive) (tools : Toolchain)
    {root : CallableId} (known : root ∈ (run displayRoot? requests).session.index.ids) :
    let before := (run displayRoot? requests).session
    ∃ catalog step visits, before.catalog? = some catalog ∧
      before.defineReachable tools root = .ok step ∧
      Walk ⟨tools, catalog, before.keepSystem⟩ before.index [] [root] visits step.session.index ∧
      ∀ id, step.session.index.Reaches root id →
        DefinitionSearch.Settled ⟨tools, catalog, before.keepSystem⟩ step.session.index id ∨
        ∃ visit ∈ visits, visit.Extended step.session.index ∧
          step.session.index.Reaches root visit.id ∧ step.session.index.Reaches visit.id id := by
  intro before
  have wellFormed : WellFormed before.index.nodes := wellFormed_run displayRoot? requests
  have coherent : before.Coherent := coherent_run displayRoot? requests
  have late : Phase.readyToSelectUnit.rank ≤ before.phase.rank := by
    rw [interactive]
    decide
  obtain ⟨catalog, opened⟩ := Option.isSome_iff_exists.mp (coherent.catalog_iff.mpr late)
  obtain ⟨visits, after, walk⟩ : ∃ visits after,
      Walk ⟨tools, catalog, before.keepSystem⟩ before.index [] [root] visits after :=
    Session.exists_walk interactive opened wellFormed (List.forall_mem_singleton.mpr known)
  obtain ⟨step, loaded, rfl⟩ := Session.defineReachable_of_walk interactive opened walk
  refine ⟨catalog, step, visits, opened, loaded, walk, fun id reaches => ?_⟩
  refine (walk.visits_reachable wellFormed reaches).imp_left fun visited => ?_
  obtain ⟨visit, member, rfl⟩ := List.mem_map.mp visited
  obtain ⟨atVisit, settled, _, grown⟩ := walk.grows_from_visit wellFormed member
  exact settled.grow atVisit grown

section Example

private def loopFunction (file : Path) (name : String) (isDefinition : Bool) : Fact :=
  .callable ⟨.function, [], name, name ++ "()", "void", isDefinition, file, file⟩

private def loopSources : FileSystem :=
  [(⟨"/w/a.cpp"⟩, "setup step"), (⟨"/w/b.cpp"⟩, "setup"), (⟨"/w/c.cpp"⟩, "finish"),
    (⟨"/w/db.json"⟩,
      "[[\"a.cpp\",null,null,[]],[\"b.cpp\",null,null,[]],[\"c.cpp\",null,null,[]]]")].foldl
    (fun files (path, text) => files.addFile path (Utf8.encode text)) (.empty ⟨"/w"⟩)

/-- In `a.cpp`, `run()` calls `setup()` and `step()`. In `b.cpp` are `setup()` and, from a header,
`step()`, which calls `finish()`; its own text does not mention `step`. In `c.cpp` is `finish()`. -/
private def loopTools : Toolchain where
  files := loopSources
  analyze path _ := .ok
    { translationUnit := path
      facts :=
        if path = ⟨"/w/a.cpp"⟩ then
          [loopFunction path "setup" false, loopFunction path "step" false,
            loopFunction path "run" true, .call ⟨"run()"⟩ ⟨"setup()"⟩,
            .call ⟨"run()"⟩ ⟨"step()"⟩]
        else if path = ⟨"/w/b.cpp"⟩ then
          [loopFunction path "finish" false, loopFunction path "step" true,
            loopFunction path "setup" true, .call ⟨"step()"⟩ ⟨"finish()"⟩]
        else [loopFunction path "finish" true]
      warnings := [] }
  systemDirectories _ := []

private def loopRequests : List Request :=
  [.openSource ⟨"db.json"⟩, .selectUnit ⟨"a.cpp"⟩ false, .selectRoot ⟨"run()"⟩].map
    fun operation => ⟨loopTools, operation⟩

private def loopSearch : DefinitionSearch where
  tools := loopTools
  catalog := ⟨⟨"/w/db.json"⟩,
    [(⟨"/w/a.cpp"⟩, []), (⟨"/w/b.cpp"⟩, []), (⟨"/w/c.cpp"⟩, [])]⟩
  keepSystem := false

/-- The graph once some of the files have been ingested. -/
private def loopIndex (files : List Path) : Index :=
  .run ⟨some ⟨"/w"⟩⟩ (files.map fun file => ⟨loopTools.toWorkspace, [], file, []⟩)

private theorem loop_opened :
    (run none loopRequests).session.phase = .interactive ∧
      (run none loopRequests).session.keepSystem = false ∧
      (run none loopRequests).session.catalog? = some loopSearch.catalog ∧
      (run none loopRequests).session.index = loopIndex [⟨"/w/a.cpp"⟩] := by
  have parts : (run none loopRequests).session.phase = .interactive ∧
      (run none loopRequests).session.keepSystem = false ∧
      (run none loopRequests).session.catalog?.map
        (fun catalog => (catalog.source, catalog.entries)) =
          some (loopSearch.catalog.source, loopSearch.catalog.entries) ∧
      (run none loopRequests).session.index = loopIndex [⟨"/w/a.cpp"⟩] := by decide +kernel
  obtain ⟨phase, system, listed, index⟩ := parts
  obtain ⟨catalog, opened, same⟩ := Option.map_eq_some_iff.mp listed
  refine ⟨phase, system, opened.trans ?_, index⟩
  cases catalog
  cases same
  rfl

/-- A visit of what is found in the graph. -/
private theorem visit_found {search : DefinitionSearch} {index middle after : Index}
    {seen agenda : List CallableId} {id : CallableId} {visits : List Visit} (new : id ∉ seen)
    (defined : (index.find? id).map (search.define index) = some (.ok middle))
    (rest : Walk search middle (id :: seen) ((middle.calleeIds id).reverse ++ agenda) visits
      after) :
    Walk search index seen (id :: agenda) (⟨id, middle⟩ :: visits) after := by
  obtain ⟨callable, found, success⟩ := Option.map_eq_some_iff.mp defined
  exact .visit new found success rest

/-- `step()` is visited while it is only declared, and `setup()` after it. -/
private theorem loop_walk :
    Walk loopSearch (loopIndex [⟨"/w/a.cpp"⟩]) [] [⟨"run()"⟩]
      [⟨⟨"run()"⟩, loopIndex [⟨"/w/a.cpp"⟩]⟩, ⟨⟨"step()"⟩, loopIndex [⟨"/w/a.cpp"⟩]⟩,
        ⟨⟨"setup()"⟩, loopIndex [⟨"/w/a.cpp"⟩, ⟨"/w/b.cpp"⟩]⟩]
      (loopIndex [⟨"/w/a.cpp"⟩, ⟨"/w/b.cpp"⟩]) := by
  have ofRun : (loopIndex [⟨"/w/a.cpp"⟩]).calleeIds ⟨"run()"⟩ = [⟨"setup()"⟩, ⟨"step()"⟩] := by
    decide +kernel
  have ofStep : (loopIndex [⟨"/w/a.cpp"⟩]).calleeIds ⟨"step()"⟩ = [] := by decide +kernel
  have ofSetup : (loopIndex [⟨"/w/a.cpp"⟩, ⟨"/w/b.cpp"⟩]).calleeIds ⟨"setup()"⟩ = [] := by
    decide +kernel
  refine visit_found (by decide) (by decide +kernel) ?_
  rw [ofRun]
  refine visit_found (by decide) (by decide +kernel) ?_
  rw [ofStep]
  refine visit_found (by decide) (by decide +kernel) ?_
  rw [ofSetup]
  exact .done _ _

/-- `finish()` can be reached from `run()` in the end, but it is only declared, and `c.cpp`, which
mentions it, has been left alone. -/
private theorem loop_unsettled :
    (loopIndex [⟨"/w/a.cpp"⟩, ⟨"/w/b.cpp"⟩]).Reaches ⟨"run()"⟩ ⟨"finish()"⟩ ∧
      ¬loopSearch.Settled (loopIndex [⟨"/w/a.cpp"⟩, ⟨"/w/b.cpp"⟩]) ⟨"finish()"⟩ := by
  constructor
  · have first : (loopIndex [⟨"/w/a.cpp"⟩, ⟨"/w/b.cpp"⟩]).HasCall ⟨"run()"⟩ ⟨"step()"⟩ := by
      unfold Index.HasCall
      decide +kernel
    have second : (loopIndex [⟨"/w/a.cpp"⟩, ⟨"/w/b.cpp"⟩]).HasCall ⟨"step()"⟩
        ⟨"finish()"⟩ := by
      unfold Index.HasCall
      decide +kernel
    exact .tail (.single first) second
  · rintro ⟨record, found, settled⟩
    have shape : (loopIndex [⟨"/w/a.cpp"⟩, ⟨"/w/b.cpp"⟩]).find? ⟨"finish()"⟩ =
        some ((⟨.function, [], "finish", "finish()", "void", false, ⟨"/w/b.cpp"⟩,
          ⟨"/w/b.cpp"⟩⟩ : SymbolFact).toCallable ⟨some ⟨"/w"⟩⟩) := by decide +kernel
    rw [shape, Option.some.injEq] at found
    subst found
    rcases settled with defined | spent
    · cases defined
    · rcases spent ⟨"/w/c.cpp"⟩ (by decide) (by decide +kernel) with ingested | ⟨error, failure⟩
      · revert ingested
        decide +kernel
      · have success : (loopSearch.ingest (loopIndex [⟨"/w/a.cpp"⟩, ⟨"/w/b.cpp"⟩])
            ⟨"/w/c.cpp"⟩).isOk = true := by decide +kernel
        rw [failure] at success
        cases success

private theorem loop_loaded :
    (run none loopRequests).session.phase = .interactive ∧
      (⟨"run()"⟩ : CallableId) ∈ (run none loopRequests).session.index.ids ∧
      ∃ step, (run none loopRequests).session.defineReachable loopTools ⟨"run()"⟩ = .ok step ∧
        step.session.index = loopIndex [⟨"/w/a.cpp"⟩, ⟨"/w/b.cpp"⟩] := by
  obtain ⟨interactive, system, opened, start⟩ := loop_opened
  obtain ⟨visits, walk⟩ : ∃ visits, Walk
      ⟨loopTools, loopSearch.catalog, (run none loopRequests).session.keepSystem⟩
      (run none loopRequests).session.index [] [⟨"run()"⟩] visits
      (loopIndex [⟨"/w/a.cpp"⟩, ⟨"/w/b.cpp"⟩]) := by
    rw [system, start]
    exact ⟨_, loop_walk⟩
  refine ⟨interactive, ?_, Session.defineReachable_of_walk interactive opened walk⟩
  rw [start]
  decide +kernel

/-- Loading what `run()` leads to leaves `finish()` unsettled. -/
theorem reachable_callable_left_unsettled :
    (run none loopRequests).session.phase = .interactive ∧
      (⟨"run()"⟩ : CallableId) ∈ (run none loopRequests).session.index.ids ∧
      (run none loopRequests).session.catalog? = some loopSearch.catalog ∧
      ∃ step, (run none loopRequests).session.defineReachable loopTools ⟨"run()"⟩ = .ok step ∧
        step.session.index.Reaches ⟨"run()"⟩ ⟨"finish()"⟩ ∧
        ¬DefinitionSearch.Settled
          ⟨loopTools, loopSearch.catalog, (run none loopRequests).session.keepSystem⟩
          step.session.index ⟨"finish()"⟩ := by
  obtain ⟨_, system, opened, _⟩ := loop_opened
  obtain ⟨interactive, known, step, loaded, grown⟩ := loop_loaded
  obtain ⟨reaches, unsettled⟩ := loop_unsettled
  rw [← grown] at reaches unsettled
  rw [system]
  exact ⟨interactive, known, opened, step, loaded, reaches, unsettled⟩

/-- The way from `run()` to `finish()` leads past a callable that was extended after its visit. -/
theorem unsettled_past_extended :
    (run none loopRequests).session.phase = .interactive ∧
      (⟨"run()"⟩ : CallableId) ∈ (run none loopRequests).session.index.ids ∧
      ∃ step, (run none loopRequests).session.defineReachable loopTools ⟨"run()"⟩ = .ok step ∧
        ∃ visit : Visit, visit.Extended step.session.index ∧
          step.session.index.Reaches visit.id ⟨"finish()"⟩ := by
  obtain ⟨_, system, opened, _⟩ := loop_opened
  obtain ⟨interactive, known, step, loaded, grown⟩ := loop_loaded
  obtain ⟨reaches, unsettled⟩ := loop_unsettled
  rw [← grown] at reaches unsettled
  obtain ⟨catalog, last, visits, listed, again, _, settles⟩ :=
    defineReachable_settles none loopRequests interactive loopTools known
  obtain rfl : catalog = loopSearch.catalog := Option.some.inj (listed.symm.trans opened)
  obtain rfl : last = step := Except.ok.inj (again.symm.trans loaded)
  rw [system] at settles
  rcases settles ⟨"finish()"⟩ reaches with settled | ⟨visit, _, extended, _, onward⟩
  · exact absurd settled unsettled
  · exact ⟨interactive, known, last, loaded, visit, extended, onward⟩

end Example

end Observed

end CallGraph
