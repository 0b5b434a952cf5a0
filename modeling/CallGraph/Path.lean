/-!
# Paths

A path is a text in which `/` separates components. Two paths that differ in doubled or trailing
slashes, or in a `.` that is not leading, have the same components, and it is the components that
are compared. The text is kept as written, for display.
-/
namespace CallGraph

/-- One step of a path. A leading `.` counts as a step, a later one does not. -/
inductive Component where
  | root
  | current
  | parent
  | name (text : String)
deriving DecidableEq, Repr, Inhabited

structure Path where
  text : String
deriving DecidableEq, Repr, Inhabited

/-- The pieces of a text between slashes; a text with `n` slashes has `n + 1` of them. -/
def splitSlashes : List Char → List (List Char)
  | [] => [[]]
  | c :: rest =>
    if c = '/' then [] :: splitSlashes rest
    else match splitSlashes rest with
      | [] => [[c]]
      | piece :: pieces => (c :: piece) :: pieces

/-- Joins pieces with one slash between neighbours. -/
def joinSlashes : List (List Char) → List Char
  | [] => []
  | [piece] => piece
  | piece :: pieces => piece ++ '/' :: joinSlashes pieces

theorem splitSlashes_ne_nil (chars : List Char) : splitSlashes chars ≠ [] := by
  cases chars with
  | nil => simp [splitSlashes]
  | cons c rest =>
    rw [splitSlashes]
    split
    · simp
    · split <;> simp

namespace Path

/-- What a path starts with: a root slash, a leading `.`, or nothing of the kind. -/
inductive Front where
  | root
  | current
  | none
deriving DecidableEq, Repr, Inhabited

namespace Front

def chars : Front → List Char
  | .root => ['/']
  | .current => ['.']
  | .none => []

def components : Front → List Component
  | .root => [.root]
  | .current => [.current]
  | .none => []

end Front

/-- The front of a text and what follows it. -/
def splitFront : List Char → Front × List Char
  | '/' :: rest => (.root, rest)
  | ['.'] => (.current, [])
  | '.' :: '/' :: rest => (.current, '/' :: rest)
  | chars => (.none, chars)

def front (path : Path) : Front := (splitFront path.text.toList).1

/-- The pieces between slashes after the front, empty ones included. -/
def pieces (path : Path) : List (List Char) := splitSlashes (splitFront path.text.toList).2

/-- A piece that is no step: empty, or a `.` after the front. -/
def isBlank (piece : List Char) : Bool := piece == [] || piece == ['.']

/-- The step that a piece stands for, if it is one. -/
def stepOf (piece : List Char) : Option Component :=
  if isBlank piece then none
  else if piece = ['.', '.'] then some .parent
  else some (.name (String.ofList piece))

/-- The components of a path; paths are equal when these are. -/
def components (path : Path) : List Component :=
  path.front.components ++ path.pieces.filterMap stepOf

/-- Whether two texts denote the same path. -/
def same (left right : Path) : Bool := left.components == right.components

def isAbsolute (path : Path) : Bool := path.front == .root

/-- Whether the components of `base` lead those of `path`. -/
def startsWith (path base : Path) : Bool := base.components.isPrefixOf path.components

/-- The path with a front and the pieces after it. -/
def ofPieces (front : Front) (pieces : List (List Char)) : Path :=
  ⟨String.ofList (front.chars ++ joinSlashes pieces)⟩

/-- `pieces` without the blank ones at its end. -/
def trimRight (pieces : List (List Char)) : List (List Char) :=
  (pieces.reverse.dropWhile isBlank).reverse

/-- `base` followed by `path`; an absolute `path` stands alone. -/
def join (base path : Path) : Path :=
  if path.isAbsolute then path
  else if base.text = "" then path
  else if base.text.toList.getLast? = some '/' then ⟨base.text ++ path.text⟩
  else ⟨base.text ++ "/" ++ path.text⟩

/-- Writes one component as a path. -/
def ofComponent : Component → Path
  | .root => ⟨"/"⟩
  | .current => ⟨"."⟩
  | .parent => ⟨".."⟩
  | .name text => ⟨text⟩

/-- The path with the given components, written with single slashes. -/
def ofComponents (components : List Component) : Path :=
  components.foldl (fun path component => path.join (ofComponent component)) ⟨""⟩

/--
The directory a path lies in, as written: the text before the last component. The root and the
empty path have none.
-/
def parent? (path : Path) : Option Path :=
  match trimRight path.pieces with
  | [] =>
    match path.front with
    | .current => some ⟨""⟩
    | _ => none
  | pieces@(_ :: _) => some (ofPieces path.front (trimRight pieces.dropLast))

/-- The last component, if it is a name. -/
def fileName? (path : Path) : Option String :=
  match path.components.getLast? with
  | some (.name text) => some text
  | _ => none

/-- Whether the file name has the extension `json`. A name that is only `.json` has none. -/
def isJson (path : Path) : Bool :=
  match path.fileName? with
  | none => false
  | some name => name ≠ ".json" && ".json".toList.isSuffixOf name.toList

/-- `pieces` after its first `count` steps, without blank pieces in front. -/
def dropSteps : Nat → List (List Char) → List (List Char)
  | _, [] => []
  | count, piece :: pieces =>
    if isBlank piece then dropSteps count pieces
    else match count with
      | 0 => piece :: pieces
      | count + 1 => dropSteps count pieces

/--
What is left of a path after the components of `base`, as written but without blank pieces at
either end; none if `base` does not lead the path.
-/
def stripBase? (path base : Path) : Option Path :=
  if !path.startsWith base then none
  else if base.components = [] then some (ofPieces path.front (trimRight path.pieces))
  else
    let steps := base.components.length - path.front.components.length
    some (ofPieces .none (trimRight (dropSteps steps path.pieces)))

end Path

end CallGraph
