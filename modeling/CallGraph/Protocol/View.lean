import CallGraph.DefinitionSearch
import CallGraph.Json.Value
import CallGraph.Session.Basic

/-!
# Views

What the protocol shows of a session: records, resolutions, the state, errors. Members of an
object are in alphabetical order. A path is shown as its text; one that is no text cannot be
written, so that what an answer shows comes with the paths in it.
-/
namespace CallGraph.Protocol

def pathView (path : Path) : Json := .string path.text

def pathsView (paths : List Path) : Json := .array (paths.map pathView)

def idView (id : CallableId) : Json := .string id.text

/-- A record, and whether it is chosen to be drawn. -/
def callableView (session : Session) (callable : Callable) : Json := .object [
  ("id", idView callable.id),
  ("included", .bool (session.isIncluded callable.id)),
  ("is_definition", .bool callable.isDefinition),
  ("kind", .string callable.kind.label),
  ("participant", .string callable.participant),
  ("qualified_name", .string callable.qualifiedName),
  ("source_file", pathView callable.sourceFile)]

def callablesView (session : Session) (callables : List Callable) : Json :=
  .array (callables.map (callableView session))

/-- A candidate that could not be ingested. -/
def failureView (failure : CandidateFailure) : Json := .object [
  ("file", pathView failure.file),
  ("kind", .string failure.kind),
  ("message", .string failure.message)]

/-- The outcome of a definition search. -/
def resolutionView (session : Session) (resolution : Resolution) : Json := .object [
  ("attempted", pathsView resolution.attempted),
  ("callable", callableView session resolution.callable),
  ("failures", .array (resolution.failures.map failureView))]

/-- The state of a session. -/
def stateView (session : Session) : Json := .object [
  ("extra_arguments", .ofStrings session.extraArguments),
  ("included", .array (session.included.map idView)),
  ("root", .ofOption (session.root?.map idView)),
  ("state", .string session.phase.label),
  ("translation_units", pathsView session.translationUnits)]

def diagnosticView (diagnostic : Diagnostic) : Json := .object [
  ("column", .ofNat diagnostic.column),
  ("file", pathView diagnostic.file),
  ("line", .ofNat diagnostic.line),
  ("message", .string diagnostic.message),
  ("severity", .string diagnostic.severity.label)]

def diagnosticsView (diagnostics : List Diagnostic) : Json :=
  .array (diagnostics.map diagnosticView)

/-- The answer that an identity is or is not to be drawn. -/
def inclusionView (id : CallableId) (included : Bool) : Json :=
  .object [("id", idView id), ("included", .bool included)]

/-- What an answer shows, and the paths in it. -/
structure Shown where
  view : Json
  paths : List Path
  /-- Whether a path that cannot be written is reported. If not, there is no answer at all. -/
  reports : Bool

namespace Shown

/-- Something without paths. -/
def plain (view : Json) : Shown := ⟨view, [], true⟩

def callable (session : Session) (callable : Callable) : Shown :=
  ⟨callableView session callable, [callable.sourceFile], true⟩

def callables (session : Session) (callables : List Callable) : Shown :=
  ⟨callablesView session callables, callables.map (·.sourceFile), true⟩

def resolution (session : Session) (resolution : Resolution) : Shown where
  view := resolutionView session resolution
  paths := resolution.attempted ++ resolution.callable.sourceFile ::
    resolution.failures.map (·.file)
  reports := true

def state (session : Session) : Shown := ⟨stateView session, session.translationUnits, true⟩

/-- The translation units of a source that has been opened. -/
def opened (session : Session) : Shown where
  view := .object [("translation_units", pathsView session.translationUnits)]
  paths := session.translationUnits
  reports := false

end Shown

end CallGraph.Protocol
