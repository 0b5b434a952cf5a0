import CallGraph.FileSystem
import CallGraph.Text.Search

/-!
# Compiler arguments

What the arguments of a compiler say about include directories, and how the arguments of a
compilation database entry are brought into the form in which a catalog keeps them.
-/
namespace CallGraph

/-- The three kinds of include directories. -/
inductive IncludeClass where
  | system
  | quote
  | angle
deriving DecidableEq, Repr, Inhabited

/-- The flag that introduces a directory of a class. -/
def IncludeClass.flag : IncludeClass → String
  | .system => "-isystem"
  | .quote => "-iquote"
  | .angle => "-I"

/-- The include flag that an argument starts with, and what follows it in the same argument. -/
def includeFlag? (argument : String) : Option (IncludeClass × String) :=
  [IncludeClass.system, .quote, .angle].findSome? fun kind =>
    (Text.after? kind.flag argument).map fun value => (kind, value)

/--
The include directories written in an argument list. A flag without a value takes the next
argument, whatever that is; at the end of the list it names nothing.
-/
def includeDirectories : List String → List (IncludeClass × String)
  | [] => []
  | argument :: rest =>
    match includeFlag? argument with
    | none => includeDirectories rest
    | some (kind, value) =>
      if value = "" then
        match rest with
        | [] => []
        | next :: rest' => (kind, next) :: includeDirectories rest'
      else (kind, value) :: includeDirectories rest

/-- The values of `-isystem` in an argument list, whatever other flags stand before them. -/
def systemValues : List String → List String
  | [] => []
  | argument :: rest =>
    if argument = "-isystem" then
      match rest with
      | [] => []
      | next :: rest' => next :: systemValues rest'
    else match Text.after? "-isystem" argument with
      | some value => value :: systemValues rest
      | none => systemValues rest

/-- The directories whose files count as system headers, canonical where they exist. -/
def systemDirectories (files : FileSystem) (arguments : List String) : List Path :=
  (systemValues arguments).map fun value => files.canonical ⟨value⟩

/-- The directories that includes are looked up in. -/
structure IncludeSearch where
  quote : List Path
  angle : List Path
  system : List Path
deriving Repr, Inhabited

namespace IncludeSearch

/-- The include directories of an argument list. System directories are searched in the place
where they are written among the others. -/
def ofArguments (files : FileSystem) (arguments : List String) : IncludeSearch :=
  let written := includeDirectories arguments
  let select (wanted : IncludeClass → Bool) : List Path :=
    (written.filter fun (kind, _) => wanted kind).map fun (_, value) => files.canonical ⟨value⟩
  { quote := select (· == .quote)
    angle := select (· != .quote)
    system := select (· == .system) }

/-- The places where an include may be found, in order. -/
def candidates (search : IncludeSearch) (including : Path) (target : String) (quoted : Bool) :
    List Path :=
  let beside := if quoted then including.parent?.toList else []
  let quote := if quoted then search.quote else []
  (beside ++ quote ++ search.angle).map fun directory => directory.join ⟨target⟩

/-- The file that an include names. -/
def resolve (search : IncludeSearch) (files : FileSystem) (including : Path) (target : String)
    (quoted : Bool) : Option Path :=
  ((search.candidates including target quoted).find? files.isFile).map files.canonical

theorem mem_filePaths_of_resolve {search : IncludeSearch} {files : FileSystem} {including : Path}
    {target : String} {quoted : Bool} {path : Path}
    (found : search.resolve files including target quoted = some path) :
    path ∈ files.filePaths := by
  simp only [resolve, Option.map_eq_some_iff] at found
  obtain ⟨candidate, inSearch, rfl⟩ := found
  exact FileSystem.canonical_mem_filePaths (List.find?_some inSearch)

def isSystem (search : IncludeSearch) (path : Path) : Bool :=
  search.system.any path.startsWith

end IncludeSearch

/-- The programs that run a compiler given as their first argument. -/
def isLauncher (program : String) : Bool :=
  ((Path.mk program).fileName?.getD program) ∈ ["ccache", "sccache", "distcc"]

/-- Arguments without the compiler, possibly behind a launcher, that they start with. -/
def dropCompiler : List String → List String
  | [] => []
  | program :: rest =>
    if (Text.after? "-" program).isSome then program :: rest
    else if isLauncher program then rest.drop 1
    else rest

/--
A directory as an argument, relative to `directory` if it is not absolute. A joined path becomes an
argument as it is displayed; `value` is a text, so that only what comes from `directory` can differ.
-/
def anchor (texts : PathTexts) (directory : Path) (value : String) : String :=
  if (Path.mk value).isAbsolute then value
  else (Path.join ⟨texts.display directory⟩ ⟨value⟩).text

/-- The source file of a database entry. -/
structure EntrySource where
  /-- The directory that the entry's relative paths start from. -/
  directory : Path
  /-- The file as the entry names it. -/
  written : Path
  /-- The file in canonical form. -/
  resolved : Path
deriving Repr, Inhabited

/-- Whether an argument names the source file. -/
def EntrySource.names (source : EntrySource) (files : FileSystem) (argument : String) : Bool :=
  let candidate : Path := ⟨argument⟩
  candidate.same source.written ||
    (files.canonical (source.directory.join candidate)).same source.resolved

/-- The arguments of an entry after its compiler, as a catalog keeps them. -/
def normalizeRest (files : FileSystem) (source : EntrySource) : List String → List String
  | [] => []
  | argument :: rest =>
    if argument = "-c" then normalizeRest files source rest
    else if argument = "-o" then
      match rest with
      | [] => []
      | _ :: rest' => normalizeRest files source rest'
    -- At the end of the list a bare flag stays, and takes the first of the arguments added to it.
    else if argument ∈ ["-I", "-isystem", "-iquote"] then
      match rest with
      | [] => [argument]
      | value :: rest' =>
        argument :: anchor files.texts source.directory value :: normalizeRest files source rest'
    else if (Text.after? "-o" argument).isSome then normalizeRest files source rest
    else match includeFlag? argument with
      | some (kind, value) =>
        (kind.flag ++ anchor files.texts source.directory value) :: normalizeRest files source rest
      | none =>
        if (Text.after? "-" argument).isNone && source.names files argument then
          normalizeRest files source rest
        else argument :: normalizeRest files source rest

/--
The arguments of an entry as a catalog keeps them: without the compiler, the output and the source
file, and with include directories that do not depend on the entry's directory.
-/
def normalizeArguments (files : FileSystem) (source : EntrySource) (raw : List String) :
    List String :=
  normalizeRest files source (dropCompiler raw)

end CallGraph
