import CallGraph.Proofs.Session.Run
import CallGraph.Protocol.Server

/-!
# Answers

Main result: `responses_atomic`. Whatever text comes in, a session either has done the one operation
that the request names, and the response is a success, or it is as it was.

An operation works in place, and some requests look something up after the operation is done. So
that an error leaves nothing behind rests on the outcomes of the operations: a refused one has done
nothing, and what is looked up after a successful one is known by then. What is done by then is not
undone if the answer has a path in it that is no text; such an answer does not say what was done.
-/
namespace CallGraph.Protocol

/-- The commands that only ask. -/
def questions : List String := ["PING", "STATE", "CALLEES", "EXPORT", "CLOSE"]

/-- The operation that a request names with its parameters. There is none without proper
parameters, and none for a request that only asks. -/
def Request.operation? (request : Request) : Option Operation :=
  let ofId (operation : CallableId → Operation) : Option Operation :=
    (request.params idParams).toOption.map fun id => operation ⟨id⟩
  match request.command with
  | "SET_EXTRA_ARGUMENTS" => (request.params argumentParams).toOption.map .setExtraArguments
  | "OPEN" => (request.params pathParams).toOption.map .openSource
  | "SELECT_TU" =>
    (request.params unitParams).toOption.map fun (file, keepSystem) => .selectUnit file keepSystem
  | "SELECT_ROOT" => ofId .selectRoot
  | "LOAD_DEFINITION" => ofId .loadDefinition
  | "INCLUDE" => ofId .includeCallable
  | "EXCLUDE" => ofId .excludeCallable
  | _ => none

/-- The status that a response object states. -/
def statusOf? : Json → Option String
  | .object members =>
    match Json.member? members "status" with
    | some (.string status) => some status
    | _ => none
  | _ => none

@[simp] theorem statusOf?_successView (data : Json) :
    statusOf? (successView data) = some "success" := rfl

@[simp] theorem statusOf?_errorView (failure : Failure) :
    statusOf? (errorView failure) = some "error" := rfl

/-- The status of a response, if there is a response object. -/
def Response.status? (response : Response) : Option String := response.body?.bind statusOf?

/-- Everything that a request can lead to. -/
inductive Carried (tools : Toolchain) (session : Session) (request : Request) : Answer → Prop where
  | asked {data : Except Failure Shown} (question : request.command ∈ questions)
    (unnamed : request.operation? = none) : Carried tools session request ⟨session, data⟩
  | misread {reason : String} (unnamed : request.operation? = none) :
    Carried tools session request ⟨session, .error (.badRequest reason)⟩
  | worked {operation : Operation} {after : Observed} {shown : Shown}
    (named : request.operation? = some operation)
    (done : (operation.work tools).run ⟨session, []⟩ = .ok () after) :
    Carried tools session request ⟨after.session, .ok shown⟩
  | refused {operation : Operation} {error : Error}
    (named : request.operation? = some operation)
    (failed : (operation.work tools).run ⟨session, []⟩ = .error error ⟨session, []⟩) :
    Carried tools session request ⟨session, .error (.ofError error)⟩

/-! ### Carrying out a request -/

section Commands

variable {tools : Toolchain} {session : Session} {request : Request}

/-- Work that does what an operation does carries out the request that names the operation. -/
theorem carried_perform {α : Type} {work : SessionM α} {shown : Session → α → Shown}
    (wellFormed : WellFormed session.index.nodes) (operation : Operation)
    (named : request.operation? = some operation)
    (same : (do let _ ← work : SessionM Unit).run ⟨session, []⟩ =
      (operation.work tools).run ⟨session, []⟩) :
    Carried tools session request (perform session work shown) := by
  have outcome := outcome_work tools ⟨session, []⟩ wellFormed operation
  rw [← same, EStateM.run_bind] at outcome
  rw [EStateM.run_bind] at same
  unfold perform
  cases result : work.run ⟨session, []⟩ with
  | ok value after =>
    rw [result] at same
    exact .worked named same.symm
  | error error after =>
    rw [result] at same outcome
    -- What a refused operation leaves is what there was.
    cases outcome with
    | refused => exact .refused named same.symm

theorem run_discard_unit (work : SessionM Unit) (observed : Observed) :
    (do let _ ← work : SessionM Unit).run observed = work.run observed := by
  rw [EStateM.run_bind]
  cases work.run observed <;> rfl

/-- A root that has been chosen is known, so that looking it up afterwards does not fail. -/
theorem run_selectRoot_lookup (observed : Observed) (id : CallableId) :
    (do let _ ← (do SessionM.selectRoot id; SessionM.onIndex (IndexM.lookup id) :
      SessionM Callable) : SessionM Unit).run observed = (SessionM.selectRoot id).run observed := by
  obtain ⟨session, events⟩ := observed
  rw [EStateM.run_bind, EStateM.run_bind, SessionM.run_selectRoot]
  by_cases allowed : session.phase ∈ [.readyToSelectRoot, .interactive]
  · -- Choosing a root has looked it up before, in the same index.
    rw [if_pos allowed]
    cases found : session.index.lookup id with
    | error error => rfl
    | ok record =>
      dsimp only
      rw [SessionM.run_onIndex, IndexM.run_lookup, found]
      rfl
  · rw [if_neg allowed]

theorem carried_withParams {α : Type} {read : Json → Except String α} {next : α → Answer}
    (bad : ∀ reason, request.params read = .error reason → request.operation? = none)
    (good : ∀ params, request.params read = .ok params →
      Carried tools session request (next params)) :
    Carried tools session request (withParams session request read next) := by
  unfold withParams
  cases found : request.params read with
  | ok params => exact good params found
  | error reason => exact .misread (bad reason found)

/-- A request that concerns a callable is carried out, whichever of the commands it has. -/
theorem carried_runIdCommand (wellFormed : WellFormed session.index.nodes) {id : String}
    (found : request.params idParams = .ok id)
    (known : request.command ∈
      ["SELECT_ROOT", "LOAD_DEFINITION", "CALLEES", "INCLUDE", "EXCLUDE"]) :
    Carried tools session request (runIdCommand tools session request.command ⟨id⟩) := by
  unfold runIdCommand
  split
  · rename_i command
    exact carried_perform wellFormed (.selectRoot ⟨id⟩)
      (by simp [Request.operation?, command, found, Except.toOption])
      (run_selectRoot_lookup _ _)
  · rename_i command
    exact carried_perform wellFormed (.loadDefinition ⟨id⟩)
      (by simp [Request.operation?, command, found, Except.toOption]) rfl
  · rename_i command
    have unnamed : request.operation? = none := by simp [Request.operation?, command]
    split <;> exact .asked (by simp [command, questions]) unnamed
  · rename_i command
    exact carried_perform wellFormed (.includeCallable ⟨id⟩)
      (by simp [Request.operation?, command, found, Except.toOption]) (run_discard_unit _ _)
  · have command : request.command = "EXCLUDE" := by simp_all
    exact carried_perform wellFormed (.excludeCallable ⟨id⟩)
      (by simp [Request.operation?, command, found, Except.toOption]) (run_discard_unit _ _)

theorem operation?_of_unknown
    (unknown : request.command ∉
      ["SET_EXTRA_ARGUMENTS", "OPEN", "SELECT_TU", "SELECT_ROOT", "LOAD_DEFINITION", "INCLUDE",
        "EXCLUDE"]) : request.operation? = none := by
  unfold Request.operation?
  split <;> simp_all

theorem carried_run (tools : Toolchain) (wellFormed : WellFormed session.index.nodes)
    (request : Request) :
    Carried tools session request (run tools session request) := by
  unfold run
  split
  · rename_i command
    exact .asked (by simp [command, questions]) (by simp [Request.operation?, command])
  · rename_i command
    exact .asked (by simp [command, questions]) (by simp [Request.operation?, command])
  · rename_i command
    refine carried_withParams
      (fun _ bad => by simp [Request.operation?, command, bad, Except.toOption])
      fun arguments found => ?_
    exact carried_perform wellFormed (.setExtraArguments arguments)
      (by simp [Request.operation?, command, found, Except.toOption]) (run_discard_unit _ _)
  · rename_i command
    refine carried_withParams
      (fun _ bad => by simp [Request.operation?, command, bad, Except.toOption])
      fun path found => ?_
    exact carried_perform wellFormed (.openSource path)
      (by simp [Request.operation?, command, found, Except.toOption]) (run_discard_unit _ _)
  · rename_i command
    refine carried_withParams
      (fun _ bad => by simp [Request.operation?, command, bad, Except.toOption])
      fun ⟨file, keepSystem⟩ found => ?_
    exact carried_perform wellFormed (.selectUnit file keepSystem)
      (by simp [Request.operation?, command, found, Except.toOption]) rfl
  · rename_i command
    have unnamed : request.operation? = none := by simp [Request.operation?, command]
    split <;> exact .asked (by simp [command, questions]) unnamed
  · rename_i command
    exact .asked (by simp [command, questions]) (by simp [Request.operation?, command])
  · split
    · rename_i known
      refine carried_withParams (fun _ bad => ?_) fun id found => ?_
      · unfold Request.operation?
        split <;> simp_all [Except.toOption]
      · exact carried_runIdCommand wellFormed found known
    · refine .misread (operation?_of_unknown ?_)
      simp_all

end Commands

/-! ### Answers -/

section Answers

variable {tools : Toolchain} {session : Session} {request : Request} {answer : Answer}
  {text : String}

namespace Carried

theorem session_of_error {failure : Failure} (carried : Carried tools session request answer)
    (failed : answer.data = .error failure) : answer.session = session := by
  cases carried with
  | asked | misread | refused => rfl
  | worked => cases failed

theorem session_of_question (carried : Carried tools session request answer)
    (question : request.command ∈ questions) : answer.session = session := by
  cases carried with
  | asked | misread | refused => rfl
  | worked named =>
    -- A question names no operation.
    simp [questions] at question
    rcases question with command | command | command | command | command <;>
      simp [Request.operation?, command] at named

/-- Only what is a question or names an operation can succeed. -/
theorem request_of_ok {shown : Shown} (carried : Carried tools session request answer)
    (success : answer.data = .ok shown) :
    request.command ∈ questions ∨ ∃ operation, request.operation? = some operation := by
  cases carried with
  | asked question => exact .inl question
  | misread => cases success
  | worked named | refused named => exact .inr ⟨_, named⟩

/-- A request that names an operation does what the operation does, and says how it went. -/
theorem of_operation {operation : Operation} (carried : Carried tools session request answer)
    (named : request.operation? = some operation) :
    match (operation.work tools).run ⟨session, []⟩ with
    | .ok () after => ∃ shown, answer = ⟨after.session, .ok shown⟩
    | .error error _ => answer = ⟨session, .error (.ofError error)⟩ := by
  cases carried with
  | asked _ unnamed | misread unnamed =>
    rw [named] at unnamed
    cases unnamed
  | worked same done =>
    obtain rfl := Option.some.inj (named.symm.trans same)
    rw [done]
    exact ⟨_, rfl⟩
  | refused same failed =>
    obtain rfl := Option.some.inj (named.symm.trans same)
    rw [failed]

end Carried

theorem process_of_malformed {error : Json.ReadError}
    (malformed : Request.ofText text = .error error) :
    process tools session text =
      ⟨session, .error (.badRequest s!"Invalid JSON format: {error.message}")⟩ := by
  simp only [process, malformed]

theorem carried_process (tools : Toolchain) (wellFormed : WellFormed session.index.nodes)
    (parsed : Request.ofText text = .ok request) :
    Carried tools session request (process tools session text) := by
  simp only [process, parsed]
  exact carried_run tools wellFormed request

/-- An answer that says what went wrong leaves the session as it was. -/
theorem session_process_of_error (wellFormed : WellFormed session.index.nodes) {failure : Failure}
    (failed : (process tools session text).data = .error failure) :
    (process tools session text).session = session := by
  cases parsed : Request.ofText text with
  | error error => rw [process_of_malformed parsed]
  | ok request => exact (carried_process tools wellFormed parsed).session_of_error failed

theorem request_of_process_ok (wellFormed : WellFormed session.index.nodes) {shown : Shown}
    (success : (process tools session text).data = .ok shown) :
    ∃ request, Request.ofText text = .ok request ∧
      (request.command ∈ questions ∨ ∃ operation, request.operation? = some operation) := by
  cases parsed : Request.ofText text with
  | error error =>
    rw [process_of_malformed parsed] at success
    cases success
  | ok request =>
    exact ⟨request, rfl, (carried_process tools wellFormed parsed).request_of_ok success⟩

end Answers

/-! ### Responses -/

/-- Only an answer that shows something is a success. -/
theorem Answer.data_of_success {answer : Answer} {texts : PathTexts}
    (success : (answer.body? texts).bind statusOf? = some "success") :
    ∃ shown, answer.data = .ok shown := by
  by_cases writable : answer.Writable texts
  · rw [Answer.body?_of_writable writable, Answer.body] at success
    cases data : answer.data with
    | ok shown => exact ⟨shown, rfl⟩
    | error failure => simp [data] at success
  · -- What is said of an answer that cannot be written is an error.
    rcases Answer.body?_of_not_writable writable with unsaid | said
    · simp [unsaid] at success
    · simp [said] at success

section Responses

variable {tools : Toolchain} {session : Session} {text : String}

theorem asksToClose_iff {text : String} :
    asksToClose text = true ↔ ∃ request, Request.ofText text = .ok request ∧
      request.command = "CLOSE" := by
  unfold asksToClose
  cases parsed : Request.ofText text <;> simp

theorem close_iff :
    (respond tools session text).close = true ↔
      (respond tools session text).status? = some "success" ∧
        ∃ request, Request.ofText text = .ok request ∧ request.command = "CLOSE" := by
  constructor
  · intro closes
    obtain ⟨request, parsed, command⟩ := asksToClose_iff.mp closes
    refine ⟨?_, request, parsed, command⟩
    have answer : process tools session text = ⟨session, .ok (.plain (.string "BYE"))⟩ := by
      simp [process, parsed, run, command]
    have writable := (process tools session text).writable_of_paths (by rw [answer]; rfl)
    rw [Response.status?, respond, Answer.body?_of_writable (writable _), answer]
    rfl
  · rintro ⟨-, asked⟩
    exact asksToClose_iff.mpr asked

/-- An answer that can be written is a success or an error, and an error leaves the session as it
was. -/
theorem respond_of_writable (wellFormed : WellFormed session.index.nodes)
    (writable : (process tools session text).Writable tools.files.texts) :
    (∃ data, (respond tools session text).body? = some (successView data)) ∨
      ∃ failure, (respond tools session text).body? = some (errorView failure) ∧
        (respond tools session text).session = session := by
  have written : (respond tools session text).body? = some (process tools session text).body :=
    Answer.body?_of_writable writable
  rw [written, Answer.body]
  cases answered : (process tools session text).data with
  | ok shown => exact .inl ⟨shown.view, rfl⟩
  | error failure => exact .inr ⟨failure, rfl, session_process_of_error wellFormed answered⟩

theorem respond_of_operation (wellFormed : WellFormed session.index.nodes) {request : Request}
    {operation : Operation} (parsed : Request.ofText text = .ok request)
    (named : request.operation? = some operation) :
    match (operation.work tools).run ⟨session, []⟩ with
    | .ok () after =>
      (respond tools session text).session = after.session ∧
        ((process tools session text).Writable tools.files.texts →
          (respond tools session text).status? = some "success")
    | .error error _ =>
      (respond tools session text).session = session ∧
        ((process tools session text).Writable tools.files.texts →
          (respond tools session text).body? = some (errorView (.ofError error))) := by
  have outcome := (carried_process tools wellFormed parsed).of_operation named
  cases done : (operation.work tools).run ⟨session, []⟩ with
  | ok value after =>
    rw [done] at outcome
    obtain ⟨shown, answered⟩ := outcome
    refine ⟨congrArg Answer.session answered, fun writable => ?_⟩
    rw [Response.status?, respond, Answer.body?_of_writable writable, answered]
    rfl
  | error error after =>
    rw [done] at outcome
    refine ⟨congrArg Answer.session outcome, fun writable => ?_⟩
    rw [respond, Answer.body?_of_writable writable, outcome]
    rfl

/-- The session after a response is one that operations lead to. -/
theorem session_respond_reachable (displayRoot? : Option Path)
    (requests : List CallGraph.Request) (tools : Toolchain) (text : String) :
    ∃ more, (respond tools (Observed.run displayRoot? requests).session text).session =
      (Observed.run displayRoot? (requests ++ more)).session := by
  have wellFormed := Observed.wellFormed_run displayRoot? requests
  rw [respond]
  cases parsed : Request.ofText text with
  | error error =>
    rw [process_of_malformed parsed]
    exact ⟨[], by rw [List.append_nil]⟩
  | ok request =>
    have carried := carried_process tools wellFormed parsed
    generalize process tools _ text = answer at carried ⊢
    cases carried with
    | asked | misread | refused => exact ⟨[], by rw [List.append_nil]⟩
    | @worked operation after shown named done =>
      -- The run has told things before the request; the operation does the same without them.
      refine ⟨[⟨tools, operation⟩], ?_⟩
      rw [Observed.run_append, Observed.serve, SessionM.run_work_told, done]
      rfl

end Responses

section Example

/-- A file that defines `f()`, on a system that calls some paths texts. -/
private def namedTools (texts : PathTexts) : Toolchain where
  files := { (FileSystem.empty ⟨"/w"⟩).addFile ⟨"/w/a.cpp"⟩ [102] with texts := texts }
  analyze path _ := .ok
    { translationUnit := path
      facts := [.callable
        { kind := .function, scope := [], spelling := "f", displayName := "f()",
          resultType := "void", isDefinition := true, sourceFile := path,
          translationUnit := path }]
      warnings := [] }
  systemDirectories _ := []

private def beforeRoot (texts : PathTexts) : List CallGraph.Request :=
  [⟨namedTools texts, .openSource ⟨"a.cpp"⟩⟩, ⟨namedTools texts, .selectUnit ⟨"a.cpp"⟩ false⟩]

private def chooseText : String :=
  "\x7b\"command\":\"SELECT_ROOT\",\"params\":\x7b\"id\":\"f()\"\x7d\x7d"

/-- The path of the only file is no text. -/
private def untextual : PathTexts where
  isText path := path.text != "/w/a.cpp"
  display path := if path.text = "/w/a.cpp" then "/w/\uFFFD.cpp" else path.text
  display_of_isText := fun _ isText => if_neg (by simpa using isText)

-- The root is chosen, but its file cannot be written.
example :
    let before := (Observed.run none (beforeRoot untextual)).session
    let response := respond (namedTools untextual) before chooseText
    response.session.root? = some ⟨"f()"⟩ ∧ response.status? = some "error" := by
  decide +kernel

end Example

end CallGraph.Protocol
