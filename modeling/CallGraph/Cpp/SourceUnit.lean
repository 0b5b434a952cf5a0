import CallGraph.Analyzer
import CallGraph.Fresh
import CallGraph.Syntax.Tree
import CallGraph.Text.Blank

/-!
# Source units

A translation unit is a main file and the headers it reaches. Loading reads and parses each file
once and puts every header before the file that first includes it. Each file is searched for
syntax errors when it is reached, and each quoted include that names no file is reported.
-/
namespace CallGraph.Cpp

/-- The parser of the language: the tree of a source text. -/
abbrev Grammar := String → Option SyntaxTree

structure SourceFile where
  path : Path
  text : String
  tree : SyntaxTree
  /-- Whether the file lies in a system directory; the main file never counts as such. -/
  isSystem : Bool
deriving Inhabited

structure Include where
  target : String
  quoted : Bool
  position : Position
deriving DecidableEq, Repr, Inhabited

/-- The include directive that a node holds. -/
def include? (text : String) (node : Node) : Option Include :=
  if node.kind = "preproc_include" then
    (node.field? "path").map fun path => {
      target := String.ofList
        (Text.trimBoth (fun c => c == '"' || c == '<' || c == '>') path.text.toList)
      quoted := path.kind == "string_literal"
      position := Position.ofOffset text node.start }
  else none

def SourceFile.includes (file : SourceFile) : List Include :=
  let nodes := (Node.ofTree file.tree).visit (·.kind != "preproc_include") Node.isMeaningful
  nodes.filterMap (include? file.text)

/-- The first line of a text, cut after thirty characters. -/
def snippet (text : String) : String :=
  let line := Text.trim (String.ofList (text.toList.takeWhile (· ≠ '\n')))
  if line.length > 30 then String.ofList (line.toList.take 30) ++ "..." else line

/-- What a syntax error consists in: a token that is missing, or text that fits nowhere. -/
def syntaxMessage? (node : Node) : Option String :=
  if node.isMissing then some s!"expected '{node.kind}'"
  else if node.isError then some s!"unexpected '{snippet node.text}'"
  else none

def SourceFile.diagnostic (file : SourceFile) (severity : Severity) (start : Nat)
    (message : String) : Diagnostic :=
  let position := Position.ofOffset file.text start
  ⟨severity, message, file.path, position.line, position.column⟩

/-- The outermost syntax errors of a file; in system headers they are only warnings. -/
def SourceFile.syntaxErrors (file : SourceFile) : List Diagnostic :=
  let root := Node.ofTree file.tree
  let severity := if file.isSystem then Severity.warning else .error
  if root.hasError then
    let nodes := root.visit (fun node => !node.isMissing && !node.isError)
      (fun node => node.hasError || node.isMissing)
    nodes.filterMap fun node => (syntaxMessage? node).map (file.diagnostic severity node.start)
  else []

def readSource (files : FileSystem) (grammar : Grammar) (path : Path) (isSystem : Bool) :
    Except Error SourceFile :=
  match files.read path with
  | .error error => .error (.io error.message)
  | .ok bytes =>
    let text := Utf8.decodeLossy bytes
    match grammar text with
    | some tree => .ok ⟨path, text, tree, isSystem⟩
    | none => .error (.io s!"parser produced no tree for {path.text}")

/-- A file whose includes are being loaded, with those still to come. -/
structure Frame where
  file : SourceFile
  includes : List Include

/-- The frame of a file that has just been read. -/
def Frame.ofFile (file : SourceFile) : Frame := ⟨file, file.includes⟩

/-- The state of loading. Files on the stack include one another, the innermost first. -/
structure Loading where
  seen : List Path
  stack : List Frame
  loaded : List SourceFile
  diagnostics : List Diagnostic

/-- All files of a unit, headers before the files that include them. -/
structure LoadedUnit where
  files : List SourceFile
  diagnostics : List Diagnostic

def stackWork (stack : List Frame) : Nat :=
  stack.foldr (fun frame work => frame.includes.length + 1 + work) 0

def Include.warning (directive : Include) (file : SourceFile) (message : String) : Diagnostic :=
  ⟨.warning, message, file.path, directive.position.line, directive.position.column⟩

/-- Loads the includes of the files on the stack, and theirs, until the stack is empty. -/
def load (files : FileSystem) (grammar : Grammar) (search : IncludeSearch) (state : Loading) :
    LoadedUnit :=
  match _stack : state.stack with
  | [] => ⟨state.loaded, state.diagnostics⟩
  | ⟨file, []⟩ :: below =>
    load files grammar search { state with stack := below, loaded := state.loaded ++ [file] }
  | ⟨file, directive :: rest⟩ :: below =>
    let stack := ⟨file, rest⟩ :: below
    match _resolved : search.resolve files file.path directive.target directive.quoted with
    | none =>
      let missing := if directive.quoted then
          [directive.warning file s!"'{directive.target}' file not found"]
        else []
      load files grammar search
        { state with stack, diagnostics := state.diagnostics ++ missing }
    | some path =>
      if _new : path ∈ state.seen then load files grammar search { state with stack }
      else
        match readSource files grammar path (search.isSystem path) with
        | .ok header =>
          load files grammar search {
            seen := path :: state.seen
            stack := Frame.ofFile header :: stack
            loaded := state.loaded
            diagnostics := state.diagnostics ++ header.syntaxErrors }
        | .error error =>
          load files grammar search {
            seen := path :: state.seen
            stack := stack
            loaded := state.loaded
            diagnostics := state.diagnostics ++
              [directive.warning file s!"cannot read '{path.text}': {error.message}"] }
termination_by ((fresh files.filePaths state.seen).length, stackWork state.stack)
decreasing_by
  · apply Prod.Lex.right; simp [_stack, stackWork]
  · apply Prod.Lex.right; simp [_stack, stackWork]
  · apply Prod.Lex.right; simp [_stack, stackWork]
  · exact Prod.Lex.left _ _
      (length_fresh_cons_lt (IncludeSearch.mem_filePaths_of_resolve _resolved) _new)
  · exact Prod.Lex.left _ _
      (length_fresh_cons_lt (IncludeSearch.mem_filePaths_of_resolve _resolved) _new)

def loadUnit (files : FileSystem) (grammar : Grammar) (search : IncludeSearch) (main : Path) :
    Except Error LoadedUnit :=
  match files.canonical? main with
  | none => .error (.sourceNotFound main)
  | some path =>
    match readSource files grammar path false with
    | .error error => .error error
    | .ok first => .ok (load files grammar search {
        seen := [path]
        stack := [Frame.ofFile first]
        loaded := []
        diagnostics := first.syntaxErrors })

end CallGraph.Cpp
