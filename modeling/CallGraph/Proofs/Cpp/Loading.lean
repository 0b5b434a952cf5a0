import CallGraph.Cpp.SourceUnit
import Mathlib.Logic.Relation

/-!
# Steps of loading

Everything that one step of loading a unit can do (`LoadStep`), and the induction over a whole load:
what every step keeps holds in the end (`load_induction`). Loading follows the include graph, in
which a file leads to what its include directives are resolved to.
-/
namespace CallGraph.Cpp

section IncludeGraph

variable (files : FileSystem) (grammar : Grammar) (search : IncludeSearch)

/-- A path leads to a file with a text that has a tree. -/
def Readable (path : Path) : Prop := ∃ source, readSource files grammar path false = .ok source

/-- The include directives of a file; what cannot be read has none. -/
def includesOf (path : Path) : List Include :=
  match readSource files grammar path false with
  | .ok source => source.includes
  | .error _ => []

def HasInclude (includer included : Path) : Prop :=
  ∃ directive ∈ includesOf files grammar includer,
    search.resolve files includer directive.target directive.quoted = some included

/-- A chain of includes, which may be empty, leads from one file to another. -/
def LeadsTo : Path → Path → Prop := Relation.ReflTransGen (HasInclude files grammar search)

end IncludeGraph

variable {files : FileSystem} {grammar : Grammar} {search : IncludeSearch}

/-- What is read of a file does not depend on where it is searched for. -/
theorem readSource_flag {path : Path} {isSystem : Bool} {source : SourceFile}
    (read : readSource files grammar path isSystem = .ok source) (other : Bool) :
    readSource files grammar path other = .ok { source with isSystem := other } := by
  unfold readSource at read ⊢
  split at read
  · cases read
  · rename_i bytes found
    dsimp only at read ⊢
    split at read
    · cases read
      rfl
    · cases read

theorem readSource_fields {path : Path} {isSystem : Bool} {source : SourceFile}
    (read : readSource files grammar path isSystem = .ok source) :
    source.path = path ∧ source.isSystem = isSystem := by
  unfold readSource at read
  split at read
  · cases read
  · dsimp only at read
    split at read
    · cases read
      exact ⟨rfl, rfl⟩
    · cases read

theorem grammar_of_readSource {path : Path} {isSystem : Bool} {source : SourceFile}
    (read : readSource files grammar path isSystem = .ok source) :
    grammar source.text = some source.tree := by
  unfold readSource at read
  split at read
  · cases read
  · dsimp only at read
    split at read
    · rename_i tree parsed
      cases read
      exact parsed
    · cases read

theorem readable_of_readSource {path : Path} {isSystem : Bool} {source : SourceFile}
    (read : readSource files grammar path isSystem = .ok source) : Readable files grammar path :=
  ⟨_, readSource_flag read false⟩

theorem includesOf_of_readSource {path : Path} {isSystem : Bool} {source : SourceFile}
    (read : readSource files grammar path isSystem = .ok source) :
    includesOf files grammar path = source.includes := by
  rw [includesOf, readSource_flag read false]
  rfl

theorem readable_of_hasInclude {includer included : Path}
    (edge : HasInclude files grammar search includer included) :
    Readable files grammar includer := by
  obtain ⟨directive, member, _⟩ := edge
  unfold includesOf at member
  split at member
  · rename_i source read
    exact ⟨source, read⟩
  · cases member

/-- What an include is resolved to is the canonical path of a candidate. -/
theorem canonical?_of_resolve {including path : Path} {target : String} {quoted : Bool}
    (resolved : search.resolve files including target quoted = some path) :
    ∃ written, files.canonical? written = some path := by
  obtain ⟨candidate, found, rfl⟩ := Option.map_eq_some_iff.mp resolved
  have isFile : files.isFile candidate = true := List.find?_some found
  refine ⟨candidate, ?_⟩
  unfold FileSystem.isFile FileSystem.find? at isFile
  unfold FileSystem.canonical FileSystem.canonical?
  split at isFile
  · rfl
  · cases isFile

/-! ### One step -/

/-- What is reported of an include directive that names no file. -/
def Include.notFound (file : SourceFile) (directive : Include) : Diagnostic where
  severity := .warning
  message := s!"'{directive.target}' file not found"
  file := file.path
  line := directive.position.line
  column := directive.position.column

/-- What is reported of an include directive before anything is read: nothing, unless it is quoted
and names no file. -/
def Include.missing (files : FileSystem) (search : IncludeSearch) (file : SourceFile)
    (directive : Include) : List Diagnostic :=
  match search.resolve files file.path directive.target directive.quoted with
  | some _ => []
  | none => if directive.quoted then [directive.notFound file] else []

/-- What is reported of an include directive that names a file which cannot be read. -/
def Include.unread (file : SourceFile) (directive : Include) (path : Path) (error : Error) :
    Diagnostic where
  severity := .warning
  message := s!"cannot read '{path.text}': {error.message}"
  file := file.path
  line := directive.position.line
  column := directive.position.column

/-- What one step of loading can do to the innermost file on the stack. -/
inductive LoadStep (files : FileSystem) (grammar : Grammar) (search : IncludeSearch) :
    Loading → Loading → Prop where
  | finish (seen : List Path) (file : SourceFile) (below : List Frame) (loaded : List SourceFile)
    (diagnostics : List Diagnostic) :
    LoadStep files grammar search ⟨seen, ⟨file, []⟩ :: below, loaded, diagnostics⟩
      ⟨seen, below, loaded ++ [file], diagnostics⟩
  | unresolved {seen : List Path} {file : SourceFile} {directive : Include} {rest : List Include}
    {below : List Frame} {loaded : List SourceFile} {diagnostics : List Diagnostic}
    (nowhere : search.resolve files file.path directive.target directive.quoted = none) :
    LoadStep files grammar search ⟨seen, ⟨file, directive :: rest⟩ :: below, loaded, diagnostics⟩
      ⟨seen, ⟨file, rest⟩ :: below, loaded, diagnostics ++ directive.missing files search file⟩
  | again {seen : List Path} {file : SourceFile} {directive : Include} {rest : List Include}
    {below : List Frame} {loaded : List SourceFile} {diagnostics : List Diagnostic} {path : Path}
    (resolved : search.resolve files file.path directive.target directive.quoted = some path)
    (old : path ∈ seen) :
    LoadStep files grammar search ⟨seen, ⟨file, directive :: rest⟩ :: below, loaded, diagnostics⟩
      ⟨seen, ⟨file, rest⟩ :: below, loaded, diagnostics⟩
  | enter {seen : List Path} {file header : SourceFile} {directive : Include}
    {rest : List Include} {below : List Frame} {loaded : List SourceFile}
    {diagnostics : List Diagnostic} {path : Path}
    (resolved : search.resolve files file.path directive.target directive.quoted = some path)
    (new : path ∉ seen)
    (read : readSource files grammar path (search.isSystem path) = .ok header) :
    LoadStep files grammar search ⟨seen, ⟨file, directive :: rest⟩ :: below, loaded, diagnostics⟩
      ⟨path :: seen, Frame.ofFile header :: ⟨file, rest⟩ :: below, loaded,
        diagnostics ++ header.syntaxErrors⟩
  | passOver {seen : List Path} {file : SourceFile} {directive : Include} {rest : List Include}
    {below : List Frame} {loaded : List SourceFile} {diagnostics : List Diagnostic} {path : Path}
    {error : Error}
    (resolved : search.resolve files file.path directive.target directive.quoted = some path)
    (new : path ∉ seen)
    (failure : readSource files grammar path (search.isSystem path) = .error error) :
    LoadStep files grammar search ⟨seen, ⟨file, directive :: rest⟩ :: below, loaded, diagnostics⟩
      ⟨path :: seen, ⟨file, rest⟩ :: below, loaded,
        diagnostics ++ [directive.unread file path error]⟩

/-- A load ends with nothing on the stack. What holds at its start and is kept by every step holds
then. -/
theorem load_induction {motive : Loading → Prop}
    (step : ∀ before after, LoadStep files grammar search before after → motive before →
      motive after)
    {state : Loading} (start : motive state) :
    ∃ last, motive last ∧ last.stack = [] ∧
      load files grammar search state = ⟨last.loaded, last.diagnostics⟩ := by
  fun_induction load files grammar search state with
  | case1 state done => exact ⟨state, start, done, rfl⟩
  | case2 state file below top ih =>
    obtain ⟨seen, stack, loaded, diagnostics⟩ := state
    subst top
    exact ih (step _ _ (.finish seen file below loaded diagnostics) start)
  | case3 state file directive rest below top stack nowhere missing ih =>
    obtain ⟨seen, _, loaded, diagnostics⟩ := state
    subst top
    have same : missing = directive.missing files search file := by
      simp [missing, Include.missing, nowhere, Include.warning, Include.notFound]
    apply ih
    rw [same]
    exact step _ _ (.unresolved nowhere) start
  | case4 state file directive rest below top stack path resolved old ih =>
    obtain ⟨seen, _, loaded, diagnostics⟩ := state
    subst top
    exact ih (step _ _ (.again resolved old) start)
  | case5 state file directive rest below top stack path resolved new header read ih =>
    obtain ⟨seen, _, loaded, diagnostics⟩ := state
    subst top
    exact ih (step _ _ (.enter resolved new read) start)
  | case6 state file directive rest below top stack path resolved new error failure ih =>
    obtain ⟨seen, _, loaded, diagnostics⟩ := state
    subst top
    exact ih (step _ _ (.passOver resolved new failure) start)

end CallGraph.Cpp
