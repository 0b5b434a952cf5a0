import CallGraph.Protocol.Request
import CallGraph.Protocol.View
import CallGraph.Session.InPlace

/-!
# Server

Answering requests: each names an operation on a session, and is answered by what came of it. An
operation works on the session in place, also if it fails. An answer is written after that, and a
path in it that cannot be written undoes nothing.
-/
namespace CallGraph.Protocol

/-- The session after a request, and what the answer shows or what went wrong. -/
structure Answer where
  session : Session
  data : Except Failure Shown

/-- Reads the parameters of a request; with bad ones nothing is done. -/
def withParams {α : Type} (session : Session) (request : Request)
    (read : Json → Except String α) (next : α → Answer) : Answer :=
  match request.params read with
  | .ok params => next params
  | .error reason => ⟨session, .error (.badRequest reason)⟩

/-- An operation on a session, and what is shown of what came of it. -/
def perform {α : Type} (session : Session) (work : SessionM α) (shown : Session → α → Shown) :
    Answer :=
  match work.run ⟨session, []⟩ with
  | .ok value after => ⟨after.session, .ok (shown after.session value)⟩
  | .error error after => ⟨after.session, .error (.ofError error)⟩

def runIdCommand (tools : Toolchain) (session : Session) (command : String)
    (id : CallableId) : Answer :=
  match command with
  | "SELECT_ROOT" =>
    -- The record is looked up when the root has been chosen already.
    perform session (do SessionM.selectRoot id; SessionM.onIndex (IndexM.lookup id)) .callable
  | "LOAD_DEFINITION" => perform session (.loadDefinition tools id) .resolution
  | "CALLEES" =>
    match session.index.lookup id with
    | .ok _ => ⟨session, .ok (.callables session (session.index.calleesOf id))⟩
    | .error error => ⟨session, .error (.ofError error)⟩
  | "INCLUDE" => perform session (.includeCallable id) fun _ () => .plain (inclusionView id true)
  | _ => perform session (.excludeCallable id) fun _ () => .plain (inclusionView id false)

def run (tools : Toolchain) (session : Session) (request : Request) : Answer :=
  match request.command with
  | "PING" => ⟨session, .ok (.plain (.string "PONG"))⟩
  | "STATE" => ⟨session, .ok (.state session)⟩
  | "SET_EXTRA_ARGUMENTS" =>
    withParams session request argumentParams fun arguments =>
      perform session (.setExtraArguments arguments) fun after () => .state after
  | "OPEN" =>
    withParams session request pathParams fun path =>
      perform session (.openSource tools path) fun after () => .opened after
  | "SELECT_TU" =>
    withParams session request unitParams fun (file, keepSystem) =>
      perform session (.selectUnit tools file keepSystem) .callables
  | "EXPORT" =>
    match session.diagram with
    | .ok text => ⟨session, .ok (.plain (.string text))⟩
    | .error error => ⟨session, .error (.ofError error)⟩
  | "CLOSE" => ⟨session, .ok (.plain (.string "BYE"))⟩
  | command =>
    if command ∈ ["SELECT_ROOT", "LOAD_DEFINITION", "CALLEES", "INCLUDE", "EXCLUDE"] then
      withParams session request idParams fun id => runIdCommand tools session command ⟨id⟩
    else ⟨session, .error (.badRequest s!"Unknown command: {command}")⟩

/-- The response to a request that was carried out. -/
def successView (data : Json) : Json :=
  .object [("data", data), ("status", .string "success")]

/-- The response to a request that failed. -/
def errorView (failure : Failure) : Json := .object [
  ("diagnostics", diagnosticsView failure.diagnostics),
  ("kind", .string failure.kind),
  ("message", .string failure.message),
  ("status", .string "error")]

/-- What is wrong with an answer that has a path in it that is no text. -/
def unwritablePath : Failure := .badRequest "path contains invalid UTF-8 characters"

namespace Answer

/-- The paths that an answer has to write. -/
def paths (answer : Answer) : List Path :=
  match answer.data with
  | .ok shown => shown.paths
  | .error failure => failure.diagnostics.map (·.file)

/-- Whether an answer can be written: all paths in it are texts. -/
def Writable (answer : Answer) (texts : PathTexts) : Prop :=
  ∀ path ∈ answer.paths, texts.isText path = true

instance (answer : Answer) (texts : PathTexts) : Decidable (answer.Writable texts) :=
  inferInstanceAs (Decidable (∀ path ∈ answer.paths, texts.isText path = true))

/-- The response object of an answer that can be written. -/
def body (answer : Answer) : Json :=
  match answer.data with
  | .ok shown => successView shown.view
  | .error failure => errorView failure

/-- The response to an answer that cannot be written. A request that was carried out is answered by
an error where that is provided for. -/
def unwritten? (answer : Answer) : Option Json :=
  match answer.data with
  | .ok shown => if shown.reports then some (errorView unwritablePath) else none
  | .error _ => none

/-- The response object of an answer, if there is any. -/
def body? (answer : Answer) (texts : PathTexts) : Option Json :=
  if answer.Writable texts then some answer.body else answer.unwritten?

variable {answer : Answer} {texts : PathTexts}

theorem writable_of_paths (none : answer.paths = []) (texts : PathTexts) :
    answer.Writable texts := by
  simp [Writable, none]

theorem body?_of_writable (writable : answer.Writable texts) :
    answer.body? texts = some answer.body := if_pos writable

theorem body?_of_not_writable (unwritable : ¬answer.Writable texts) :
    answer.body? texts = none ∨ answer.body? texts = some (errorView unwritablePath) := by
  rw [body?, if_neg unwritable, unwritten?]
  split
  · split
    · exact .inr rfl
    · exact .inl rfl
  · exact .inl rfl

end Answer

/-- Whether a text is a request to close the connection. -/
def asksToClose (text : String) : Bool :=
  match Request.ofText text with
  | .ok request => request.command == "CLOSE"
  | .error _ => false

/-- Reads a request and carries it out. -/
def process (tools : Toolchain) (session : Session) (text : String) : Answer :=
  match Request.ofText text with
  | .ok request => run tools session request
  | .error error => ⟨session, .error (.badRequest s!"Invalid JSON format: {error.message}")⟩

/-- What a request leads to. -/
structure Response where
  session : Session
  /-- Without a response object the connection breaks off. -/
  body? : Option Json
  /-- Whether the connection ends with this response. -/
  close : Bool

/-- The response object, or null where there is none. -/
def Response.body (response : Response) : Json := response.body?.getD .null

/-- The response to a text. Whether it ends the connection is read off the text by itself. -/
def respond (tools : Toolchain) (session : Session) (text : String) : Response :=
  let answer := process tools session text
  ⟨answer.session, answer.body? tools.files.texts, asksToClose text⟩

end CallGraph.Protocol
