import CallGraph.CommandLine.Invocation
import CallGraph.Config
import CallGraph.Cpp.Analysis
import CallGraph.Listing
import CallGraph.Session.Reachable

/-!
# Program

Running a command line over a file system: what is printed, how the run ends, and the files
afterwards.
-/
namespace CallGraph.Program

open CommandLine

/-- How a run ends. -/
structure Outcome where
  exitCode : Nat
  output : String
  errorOutput : String
  files : FileSystem
deriving Inhabited

/-- What a run leads to: an end, or a server that is to be started. -/
inductive Action where
  | finish (outcome : Outcome)
  | serve (config : Config) (host : String) (port : Nat)
deriving Inhabited

def success (files : FileSystem) (output : String) : Outcome := ⟨0, output, "", files⟩

def failed (files : FileSystem) (failure : Failure) : Outcome :=
  ⟨1, "", s!"Error: {failure.chain}\n", files⟩

def runDump (files : FileSystem) (tools : Toolchain) (config : Config)
    (command : DumpCommand) : Except Failure Outcome :=
  let request : ListingRequest := {
    entry := command.entry
    source := command.source
    keepSystem := command.keepSystem || config.keepSystem
    extraArguments := config.extraArguments ++ command.extraArguments
    displayRoot? := config.displayRoot? }
  (request.text tools).map (success files)

/-- Chooses callables to be drawn, one after the other. -/
def includeAll : List CallableId → Session → Except Error Session
  | [], session => .ok session
  | id :: rest, session => do
    let step ← session.includeCallable id
    includeAll rest step.session

def lift {α : Type} (result : Except Error α) : Except Failure α := result.mapError .ofError

/-- The translation unit that a diagram starts from. -/
def startUnit (command : ExportCommand) (session : Session) : Except Failure Path :=
  match command.unit? with
  | some path => .ok path
  | none =>
    match session.translationUnits with
    | path :: _ => .ok path
    | [] => .error (.badRequest s!"{command.source.text} lists no translation units")

def diagramText (tools : Toolchain) (config : Config) (command : ExportCommand) :
    Except Failure String := do
  let step ← lift ((Session.start config.displayRoot?).setExtraArguments
    (config.extraArguments ++ command.extraArguments))
  let step ← lift (step.session.openSource tools command.source)
  let unit ← startUnit command step.session
  let step ← lift
    (step.session.selectUnit tools unit (command.keepSystem || config.keepSystem))
  let step ← lift (step.session.selectRoot command.root)
  let step ← if command.loadDefinitions then
      lift (step.session.defineReachable tools command.root)
    else pure step
  let session ← lift (includeAll command.included step.session)
  lift session.diagram

def runExport (files : FileSystem) (tools : Toolchain) (config : Config)
    (command : ExportCommand) : Except Failure Outcome := do
  let text ← diagramText tools config command
  match command.output? with
  | none => pure (success files (text ++ "\n"))
  | some path =>
    match files.write path (Utf8.encode text) with
    | .ok written => pure (success written "")
    | .error error =>
      .error (.badRequest s!"Failed to write {path.text}: {error.message}")

def runCommand (files : FileSystem) (tools : Toolchain) (config : Config) :
    Command → Except Failure Action
  | .dump command => (runDump files tools config command).map .finish
  | .export command => (runExport files tools config command).map .finish
  | .serve host? port? =>
    .ok (.serve config (host?.getD config.server.host) (port?.getD config.server.port))

def run (files : FileSystem) (grammar : Cpp.Grammar) (words : List String) : Action :=
  match CommandLine.parse words with
  | .usageError => .finish ⟨2, "", "", files⟩
  | .print text => .finish (success files text)
  | .run invocation =>
    let result := do
      let config ← Config.load files invocation.config?
      runCommand files (Cpp.workspace files grammar) config invocation.command
    match result with
    | .ok action => action
    | .error failure => .finish (failed files failure)

/-- The session that a server starts for each connection. -/
def newSession (config : Config) : Session :=
  let session := Session.start config.displayRoot?
  if config.extraArguments = [] then session
  else
    match session.setExtraArguments config.extraArguments with
    | .ok step => step.session
    | .error _ => session

end CallGraph.Program
