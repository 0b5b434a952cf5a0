import CallGraph.Session.InPlace

/-!
# Steps of a session

An operation on a session as a step: the session after it together with what an observer has been
told, or an error.
-/
namespace CallGraph

/-- What an operation leads to: the session after it, what an observer sees, and an answer. -/
structure Step (α : Type) where
  session : Session
  events : List Event
  value : α

namespace SessionM

/-- The step that work on a session amounts to, if it does not fail. -/
def step {α : Type} (work : SessionM α) (session : Session) : Except Error (Step α) :=
  match work.run ⟨session, []⟩ with
  | .ok value after => .ok ⟨after.session, after.events, value⟩
  | .error error _ => .error error

end SessionM

namespace Session

def setExtraArguments (session : Session) (arguments : List String) : Except Error (Step Unit) :=
  (SessionM.setExtraArguments arguments).step session

def openSource (tools : Toolchain) (session : Session) (source : Path) :
    Except Error (Step Unit) :=
  (SessionM.openSource tools source).step session

def selectUnit (tools : Toolchain) (session : Session) (file : Path) (keepSystem : Bool) :
    Except Error (Step (List Callable)) :=
  (SessionM.selectUnit tools file keepSystem).step session

def selectRoot (session : Session) (id : CallableId) : Except Error (Step Unit) :=
  (SessionM.selectRoot id).step session

def loadDefinition (tools : Toolchain) (session : Session) (id : CallableId) :
    Except Error (Step Resolution) :=
  (SessionM.loadDefinition tools id).step session

def includeCallable (session : Session) (id : CallableId) : Except Error (Step Unit) :=
  (SessionM.includeCallable id).step session

def excludeCallable (session : Session) (id : CallableId) : Except Error (Step Unit) :=
  (SessionM.excludeCallable id).step session

end Session

end CallGraph
