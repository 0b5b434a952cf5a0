import CallGraph.Fresh
import CallGraph.Session.Step

/-!
# Loading reachable definitions

Searching for the definitions of all callables that can be reached from a root, each once. The
graph grows while it is walked: what has been found is walked too.
-/
namespace CallGraph.Session

/-- How many files of the opened catalog have not been ingested. -/
def pending (tools : Toolchain) (session : Session) : Nat :=
  match session.catalog? with
  | some catalog => catalog.pending tools.files session.index
  | none => 0

/-- Loads the definition of a callable that has none yet. -/
def define (tools : Toolchain) (session : Session) (callable : Callable) :
    Except Error (Step Unit) :=
  if callable.isDefinition then .ok ⟨session, [], ()⟩
  else (session.loadDefinition tools callable.id).map fun step =>
    ⟨step.session, step.events, ()⟩

theorem loadDefinition_progress {tools : Toolchain} {session : Session} {id : CallableId}
    {step : Step Resolution} (success : session.loadDefinition tools id = .ok step) :
    step.session = session ∨ step.session.pending tools < session.pending tools := by
  rw [loadDefinition, SessionM.step] at success
  split at success
  · rename_i value reached worked
    rw [SessionM.run_loadDefinition] at worked
    cases success
    split at worked
    · split at worked
      · cases worked
      · rename_i catalog opened
        split at worked
        · cases worked
        · rename_i resolution index found
          rw [EStateM.Result.ok.injEq] at worked
          rw [← worked.2]
          rcases DefinitionSearch.resolveInPlace_progress found with same | less
          · exact .inl (by rw [same])
          · exact .inr (by simpa [pending, opened] using less)
    · cases worked
  · cases success

theorem define_progress {tools : Toolchain} {session : Session} {callable : Callable}
    {step : Step Unit} (success : session.define tools callable = .ok step) :
    step.session = session ∨ step.session.pending tools < session.pending tools := by
  unfold define at success
  split at success
  · simp only [Except.ok.injEq] at success
    exact .inl (by rw [← success])
  · cases found : session.loadDefinition tools callable.id with
    | error error => simp [found, Except.map] at success
    | ok inner =>
      simp only [found, Except.map, Except.ok.injEq] at success
      subst success
      exact loadDefinition_progress found

/-- Loads the definitions of the callables on an agenda and of all that they lead to. -/
def defineAll (tools : Toolchain) (session : Session) (seen agenda : List CallableId) :
    Except Error (Step Unit) :=
  match agenda with
  | [] => .ok ⟨session, [], ()⟩
  | id :: rest =>
    if _old : id ∈ seen then defineAll tools session seen rest
    else
      match _known : session.index.find? id with
      | none => .error (.unknownSymbol id)
      | some callable =>
        match _defined : session.define tools callable with
        | .error error => .error error
        | .ok step =>
          let callees := (step.session.index.calleesOf id).map Callable.id
          (defineAll tools step.session (id :: seen) (callees.reverse ++ rest)).map
            fun last => { last with events := step.events ++ last.events }
termination_by (session.pending tools, (fresh session.index.ids seen).length, agenda.length)
decreasing_by
  · apply Prod.Lex.right
    apply Prod.Lex.right
    simp
  · rcases define_progress _defined with same | less
    · rw [same]
      apply Prod.Lex.right
      exact Prod.Lex.left _ _ (length_fresh_cons_lt (Index.mem_ids_of_find? _known) _old)
    · exact Prod.Lex.left _ _ less

/-- Loads the definitions of all callables that can be reached from a root. -/
def defineReachable (tools : Toolchain) (session : Session) (root : CallableId) :
    Except Error (Step Unit) :=
  defineAll tools session [] [root]

end CallGraph.Session
