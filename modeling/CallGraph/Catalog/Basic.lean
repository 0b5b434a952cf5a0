import CallGraph.Catalog.Database
import CallGraph.CompilerArguments
import CallGraph.Error
import CallGraph.Text.ShellWords

/-!
# Catalogs

A catalog knows the source files of a project and the compiler arguments that each is analyzed
with. It is read from a compilation database, or holds a single file.
-/
namespace CallGraph

/-- Source files, each with its compiler arguments, in the order in which they were first named. -/
structure Catalog where
  source : Path
  entries : List (Path × List String)
deriving Repr, Inhabited

namespace Catalog

/-- `entries` with the arguments of a file set; a new file comes last. -/
def setArguments (file : Path) (arguments : List String) :
    List (Path × List String) → List (Path × List String)
  | [] => [(file, arguments)]
  | (known, old) :: rest =>
    if known.same file then (known, arguments) :: rest
    else (known, old) :: setArguments file arguments rest

def ofAssignments (assignments : List (Path × List String)) : List (Path × List String) :=
  assignments.foldl (fun entries (file, arguments) => setArguments file arguments entries) []

def paths (catalog : Catalog) : List Path := catalog.entries.map Prod.fst

/-- The arguments of a file, however its path is written. -/
def arguments? (catalog : Catalog) (files : FileSystem) (file : Path) : Option (List String) :=
  let wanted := files.canonical file
  (catalog.entries.find? fun entry => entry.1.same wanted).map Prod.snd

def displayRoot (catalog : Catalog) : DisplayRoot := .ofFiles catalog.paths

def ofSourceFile (files : FileSystem) (path : Path) (extra : List String) : Catalog :=
  let file := files.canonical path
  ⟨file, [(file, extra)]⟩

def ofEntries (files : FileSystem) (source : Path) (entries : List (Path × List String)) :
    Catalog :=
  ⟨source, ofAssignments (entries.map fun (file, arguments) => (files.canonical file, arguments))⟩

/-- The directory that the relative paths of a database entry start from. -/
def directoryOf (base : Path) (entry : Database.Entry) : Path :=
  match entry.directory? with
  | some directory => base.join ⟨directory⟩
  | none => base

/-- The arguments of a database entry as it writes them; an error gives the reason. -/
def rawArguments (entry : Database.Entry) : Except String (List String) :=
  match entry.arguments?, entry.command? with
  | some arguments, _ => .ok arguments
  | none, some line =>
    match ShellWords.split? line with
    | some words => .ok words
    | none => .error s!"unbalanced quoting in command for {entry.file}"
  | none, none => .error s!"entry for {entry.file} has neither 'command' nor 'arguments'"

/-- The file of a database entry and the arguments that the catalog keeps for it. -/
def assignment (files : FileSystem) (base : Path) (extra : List String) (entry : Database.Entry) :
    Except String (Path × List String) := do
  let raw ← rawArguments entry
  let directory := directoryOf base entry
  let file := files.canonical (directory.join ⟨entry.file⟩)
  let source : EntrySource := ⟨directory, ⟨entry.file⟩, file⟩
  pure (file, normalizeArguments files source raw ++ extra)

def ofDatabase (files : FileSystem) (path : Path) (extra : List String) : Except Error Catalog :=
  match files.readText path with
  | .error error => .error (.io error.message)
  | .ok document =>
    match Database.ofDocument document with
    | .error error => .error (.invalidDatabase path error.message)
    | .ok entries =>
      let base := path.parent?.getD ⟨""⟩
      match entries.mapM (assignment files base extra) with
      | .error reason => .error (.invalidDatabase path reason)
      | .ok assignments => .ok ⟨files.canonical path, ofAssignments assignments⟩

/-- The catalog that a path stands for: a database if it ends in `.json`, a source file if not. -/
def ofPath (files : FileSystem) (path : Path) (extra : List String) : Except Error Catalog :=
  if !files.contains path then .error (.sourceNotFound path)
  else if path.isJson then ofDatabase files path extra
  else .ok (ofSourceFile files path extra)

end Catalog

end CallGraph
