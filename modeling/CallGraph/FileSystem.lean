import CallGraph.Path
import CallGraph.Text.Utf8

/-!
# File system

A file system is a value: a tree of directories and files, and a working directory in it. Paths
are resolved step by step, so a step out of something that is not a directory fails even if it
leads back.
-/
namespace CallGraph

/-- A file with its bytes, or a directory with its children. -/
inductive Entry where
  | file (bytes : List UInt8)
  | directory (children : List (String × Entry))
deriving Inhabited

namespace Entry

def isDirectory : Entry → Bool
  | .directory _ => true
  | .file _ => false

def isFile : Entry → Bool
  | .directory _ => false
  | .file _ => true

def children : Entry → List (String × Entry)
  | .directory children => children
  | .file _ => []

/-- The entry that lies below `entry` under the given names. -/
def find? : List String → Entry → Option Entry
  | [], entry => some entry
  | name :: names, entry => (entry.children.lookup name).bind (find? names)

mutual

/-- The names under which files lie below an entry. -/
def files : Entry → List (List String)
  | .file _ => [[]]
  | .directory children => filesOf children

/-- The names under which files lie below the children of a directory. -/
def filesOf : List (String × Entry) → List (List String)
  | [] => []
  | (name, child) :: rest => (files child).map (name :: ·) ++ filesOf rest

end

theorem cons_mem_filesOf {name : String} {names : List String} {child : Entry}
    {children : List (String × Entry)} (found : children.lookup name = some child)
    (member : names ∈ child.files) : name :: names ∈ filesOf children := by
  induction children with
  | nil => simp at found
  | cons pair rest ih =>
    obtain ⟨key, entry⟩ := pair
    rw [filesOf]
    by_cases here : name = key
    · subst here
      simp only [List.lookup_cons, beq_self_eq_true, Option.some.injEq] at found
      subst found
      exact List.mem_append_left _ (List.mem_map_of_mem member)
    · have different : (name == key) = false := by simpa using here
      rw [List.lookup_cons, different] at found
      exact List.mem_append_right _ (ih found)

theorem mem_files_of_find? {names : List String} {entry : Entry} {bytes : List UInt8}
    (found : entry.find? names = some (.file bytes)) : names ∈ entry.files := by
  induction names generalizing entry with
  | nil =>
    simp only [find?, Option.some.injEq] at found
    subst found
    simp [files]
  | cons name names ih =>
    cases entry with
    | file bytes => simp [find?, children] at found
    | directory children =>
      simp only [find?, Entry.children, Option.bind_eq_some_iff] at found
      obtain ⟨child, lookup, below⟩ := found
      rw [files]
      exact cons_mem_filesOf lookup (ih below)

/-- `pairs` with the value of `key` changed, or added at the end. -/
def alterPair {α : Type} (key : String) (change : Option α → α) :
    List (String × α) → List (String × α)
  | [] => [(key, change none)]
  | (name, value) :: pairs =>
    if name = key then (name, change (some value)) :: pairs
    else (name, value) :: alterPair key change pairs

/-- Changes the entry under the given names; directories on the way are made as needed. -/
def alter (change : Option Entry → Entry) : List String → Option Entry → Entry
  | [], entry => change entry
  | name :: names, entry =>
    .directory (alterPair name (alter change names) ((entry.map children).getD []))

end Entry

/-- Names of nested directories and the entry in the last of them, outermost first. -/
abbrev Location := List String

inductive FileError where
  | notFound
  | isDirectory
  | notDirectory
  | notText
deriving DecidableEq, Repr, Inhabited

def FileError.message : FileError → String
  | .notFound => "No such file or directory (os error 2)"
  | .isDirectory => "Is a directory (os error 21)"
  | .notDirectory => "Not a directory (os error 20)"
  | .notText => "stream did not contain valid UTF-8"

/-- The absolute path of a location, with single slashes. -/
def Path.ofLocation (location : Location) : Path :=
  ⟨String.ofList ('/' :: joinSlashes (location.map String.toList))⟩

/-- The names on an absolute path, read without looking at any file. -/
def Path.names (path : Path) : List String :=
  path.components.filterMap fun component =>
    match component with
    | .name text => some text
    | _ => none

/--
How paths are written out. A path of the operating system is a sequence of bytes and need not be a
text; `Path` has a spelling for each.
-/
structure PathTexts where
  /-- Whether a path is spelled as it is. -/
  isText : Path → Bool
  /-- What is shown of a path, with replacements in it if it is no text. -/
  display : Path → String
  display_of_isText : ∀ path, isText path = true → display path = path.text

namespace PathTexts

/-- All paths are texts. -/
def plain : PathTexts := ⟨fun _ => true, Path.text, fun _ _ => rfl⟩

instance : Inhabited PathTexts := ⟨plain⟩

end PathTexts

/-- A tree of entries, the directory that relative paths start from, and how paths are written. -/
structure FileSystem where
  root : Entry
  workingDirectory : Location
  texts : PathTexts
deriving Inhabited

namespace FileSystem

def entry? (files : FileSystem) (location : Location) : Option Entry := files.root.find? location

def isDirectoryAt (files : FileSystem) (location : Location) : Bool :=
  (files.entry? location).any Entry.isDirectory

/-- Follows the pieces of a path from a location. -/
def follow (files : FileSystem) (location : Location) : List (List Char) →
    Except FileError Location
  | [] => .ok location
  | piece :: pieces =>
    if !files.isDirectoryAt location then .error .notDirectory
    else if Path.isBlank piece then files.follow location pieces
    else if piece = ['.', '.'] then files.follow location.dropLast pieces
    else
      let next := location ++ [String.ofList piece]
      if (files.entry? next).isSome then files.follow next pieces else .error .notFound

/-- The location that a path leads to, if something is there. -/
def locate (files : FileSystem) (path : Path) : Except FileError Location :=
  if path.text = "" then .error .notFound
  else
    let start := if path.isAbsolute then [] else files.workingDirectory
    files.follow start (splitSlashes path.text.toList)

/-- The absolute path without detours to what a path leads to, if something is there. -/
def canonical? (files : FileSystem) (path : Path) : Option Path :=
  match files.locate path with
  | .ok location => some (Path.ofLocation location)
  | .error _ => none

/-- The canonical form of a path; a path that leads nowhere stays as it is. -/
def canonical (files : FileSystem) (path : Path) : Path := (files.canonical? path).getD path

def find? (files : FileSystem) (path : Path) : Option Entry :=
  match files.locate path with
  | .ok location => files.entry? location
  | .error _ => none

def contains (files : FileSystem) (path : Path) : Bool := (files.find? path).isSome

def isFile (files : FileSystem) (path : Path) : Bool := (files.find? path).any Entry.isFile

/-- The canonical paths of all files. -/
def filePaths (files : FileSystem) : List Path := files.root.files.map Path.ofLocation

/-- The canonical path of a file is one of the finitely many. -/
theorem canonical_mem_filePaths {files : FileSystem} {path : Path} (isFile : files.isFile path) :
    files.canonical path ∈ files.filePaths := by
  unfold FileSystem.isFile FileSystem.find? at isFile
  unfold canonical canonical? filePaths
  cases found : files.locate path with
  | error error => simp [found] at isFile
  | ok location =>
    simp only [found] at isFile
    cases entry : files.entry? location with
    | none => simp [entry] at isFile
    | some entry' =>
      cases entry' with
      | directory children => simp [entry, Entry.isFile] at isFile
      | file bytes => exact List.mem_map_of_mem (Entry.mem_files_of_find? entry)

def read (files : FileSystem) (path : Path) : Except FileError (List UInt8) :=
  match files.locate path with
  | .error error => .error error
  | .ok location =>
    match files.entry? location with
    | some (.file bytes) => .ok bytes
    | some (.directory _) => .error .isDirectory
    | none => .error .notFound

/-- The text of the file that a path leads to; bytes that are no text are an error. -/
def readText (files : FileSystem) (path : Path) : Except FileError String :=
  match files.read path with
  | .error error => .error error
  | .ok bytes =>
    match Utf8.decode? bytes with
    | some text => .ok text
    | none => .error .notText

/-- An empty file system with nothing but the working directory in it. -/
def empty (workingDirectory : Path) : FileSystem where
  root := Entry.alter (fun _ => .directory []) workingDirectory.names none
  workingDirectory := workingDirectory.names
  texts := .plain

/-- The location that a path names in a file system without detours. -/
def locationOf (files : FileSystem) (path : Path) : Location :=
  if path.isAbsolute then path.names else files.workingDirectory ++ path.names

def addFile (files : FileSystem) (path : Path) (bytes : List UInt8) : FileSystem :=
  { files with root := Entry.alter (fun _ => .file bytes) (files.locationOf path) files.root }

/-- Adds a directory; one that exists stays as it is. -/
def addDirectory (files : FileSystem) (path : Path) : FileSystem :=
  let make : Option Entry → Entry := fun old => .directory ((old.map Entry.children).getD [])
  { files with root := Entry.alter make (files.locationOf path) files.root }

def put (files : FileSystem) (location : Location) (bytes : List UInt8) : FileSystem :=
  { files with root := Entry.alter (fun _ => .file bytes) location files.root }

/--
Writes a file, over an existing one if need be. The directory it lies in must exist, and a path
with a slash at its end names no file.
-/
def write (files : FileSystem) (path : Path) (bytes : List UInt8) : Except FileError FileSystem :=
  match files.locate path with
  | .ok location =>
    if files.isDirectoryAt location then .error .isDirectory else .ok (files.put location bytes)
  | .error .notFound =>
    let pieces := splitSlashes path.text.toList
    let named := (pieces.reverse.dropWhile (· == [])).reverse
    let start := if path.isAbsolute then [] else files.workingDirectory
    match named.getLast? with
    | none => .error .notFound
    | some name =>
      match files.follow start named.dropLast with
      | .error error => .error error
      | .ok directory =>
        if !files.isDirectoryAt directory then .error .notDirectory
        else if Path.isBlank name || name == ['.', '.'] then .error .notFound
        else if named.length < pieces.length then .error .isDirectory
        else .ok (files.put (directory ++ [String.ofList name]) bytes)
  | .error error => .error error

/-- The files of `after` that are not the same in `before`, with their bytes. -/
def changes (before after : FileSystem) : List (Path × List UInt8) :=
  after.filePaths.filterMap fun path =>
    match before.read path, after.read path with
    | .ok old, .ok new => if old = new then none else some (path, new)
    | .error _, .ok new => some (path, new)
    | _, .error _ => none

end FileSystem

end CallGraph
