import CallGraph.Proofs.Session.Invariant

/-!
# Rejected operations

Main result: `rejected_operations_atomic`. After any run, an operation outside the phases that
allow it is refused at once, and an operation that returns an error, whichever it is, has changed
nothing and has told an observer nothing.
-/
namespace CallGraph

namespace SessionM

/-- A closed gate is all that matters: no argument is looked at, and nothing is done. -/
theorem run_work_of_closed {operation : Operation} {name : String} {allowed : List Phase}
    (gate : operation.gate? = some (name, allowed)) (tools : Toolchain) (before : Observed)
    (outside : before.session.phase ∉ allowed) :
    (operation.work tools).run before =
      .error (.invalidTransition name before.session.phase) before := by
  obtain ⟨session, events⟩ := before
  cases operation with
  | setExtraArguments | openSource | selectRoot | includeCallable | excludeCallable =>
    cases gate
    exact (run_gated session events _ _ _).trans (if_neg outside)
  | selectUnit | loadDefinition =>
    cases gate
    rw [Operation.work, EStateM.run_bind]
    simp only [selectUnit, loadDefinition, run_gated, if_neg outside]
  | draw => cases gate

end SessionM

/-- An operation is refused for its phase by its gate, or else because its analyzer says so. -/
theorem Refusal.invalidTransition_cases {request : Request} {before : Session}
    (coherent : before.Coherent) {error : Error}
    (refusal : Refusal request.tools before request.operation error) {name : String}
    {phase : Phase} (same : error = .invalidTransition name phase) :
    (∃ allowed, request.operation.gate? = some (name, allowed) ∧ phase = before.phase ∧
      before.phase ∉ allowed) ∨ request.AnalysisFails before error := by
  obtain ⟨tools, operation⟩ := request
  cases refusal with
  | closed gate outside =>
    cases same
    exact .inl ⟨_, gate, rfl, outside⟩
  | source failure =>
    rcases Catalog.error_of_ofPath failure with rfl | ⟨_, rfl⟩ | ⟨_, rfl⟩ <;> cases same
  | noCatalog | unlisted | unknown => cases same
  | unit opened listed failure =>
    rcases Index.error_of_ingest failure with rfl | ⟨path, found, analyzed⟩
    · cases same
    · exact .inr ⟨_, _, _, _, path, rfl, opened, listed, found, analyzed⟩
  | undrawn failure =>
    by_cases interactive : before.phase = .interactive
    · obtain ⟨text, drawn⟩ := Session.diagram_of_interactive coherent interactive
      rw [drawn] at failure
      cases failure
    · rw [Session.diagram_of_early interactive, Except.error.injEq] at failure
      rw [same] at failure
      cases failure

/-- In the last phase only an unknown callable is in the way of a search. -/
theorem Refusal.loadDefinition_cases {tools : Toolchain} {before : Session}
    (coherent : before.Coherent) (interactive : before.phase = .interactive) {id : CallableId}
    {error : Error} (refusal : Refusal tools before (.loadDefinition id) error) :
    error = .unknownSymbol id ∧ id ∉ before.index.ids := by
  cases refusal with
  | closed gate outside =>
    cases gate
    exact absurd (List.mem_singleton.mpr interactive) outside
  | noCatalog late missing =>
    have opened := coherent.catalog_iff.mpr late
    rw [missing] at opened
    cases opened
  | unknown target missing =>
    cases target
    exact ⟨rfl, missing⟩

namespace Observed

/-- After any run, a closed gate refuses an operation with the phase, and only a closed gate or an
analyzer that says so does. An operation that returns an error leaves the session and what an
observer has been told as they were. A search in the last phase fails only for an unknown
callable. -/
theorem rejected_operations_atomic (displayRoot? : Option Path) (requests : List Request)
    (request : Request) :
    let before := run displayRoot? requests
    let result := (request.operation.work request.tools).run before
    (∀ name allowed, request.operation.gate? = some (name, allowed) →
      before.session.phase ∉ allowed →
      result = .error (.invalidTransition name before.session.phase) before) ∧
    (∀ name phase after, result = .error (.invalidTransition name phase) after →
      (∃ allowed, request.operation.gate? = some (name, allowed) ∧
        phase = before.session.phase ∧ before.session.phase ∉ allowed) ∨
      request.AnalysisFails before.session (.invalidTransition name phase)) ∧
    (∀ error after, result = .error error after → after = before) ∧
    ∀ id, request.operation = .loadDefinition id → before.session.phase = .interactive →
      (id ∈ before.session.index.ids → ∃ after, result = .ok () after) ∧
      (id ∉ before.session.index.ids → result = .error (.unknownSymbol id) before) := by
  intro before result
  have coherent : before.session.Coherent := coherent_run displayRoot? requests
  have outcome : Outcome request.tools before request.operation result :=
    outcome_work request.tools before (wellFormed_run displayRoot? requests) request.operation
  refine ⟨?_, ?_, ?_, ?_⟩
  · intro name allowed gate outside
    exact SessionM.run_work_of_closed gate request.tools before outside
  · intro name phase after failure
    rw [failure] at outcome
    cases outcome with
    | refused refusal => exact refusal.invalidTransition_cases coherent rfl
  · intro error after failure
    rw [failure] at outcome
    cases outcome with
    | refused => rfl
  · intro id search interactive
    rw [search] at outcome
    generalize result = result at outcome
    cases outcome with
    | done effect =>
      cases effect with
      | searched _ _ known => exact ⟨fun _ => ⟨_, rfl⟩, fun unknown => absurd known unknown⟩
    | refused refusal =>
      obtain ⟨rfl, unknown⟩ := refusal.loadDefinition_cases coherent interactive
      exact ⟨fun known => absurd known unknown, fun _ => rfl⟩

end Observed

end CallGraph
