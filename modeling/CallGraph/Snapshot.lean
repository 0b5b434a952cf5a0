import CallGraph.Cpp.Analysis
import CallGraph.Json.Decode
import CallGraph.Json.Reader

/-!
# Snapshots

A snapshot is a JSON object that holds the files below a directory together with the syntax trees
of those that are source texts, so that a program can be run over them without a parser. A file is
given as a text, or as an object with its `text`, its bytes in `hex`, or the mark `dir` of a
directory, and possibly its `tree`. A tree is a table of all its nodes in preorder; a node is a row
of its kind, its field, its flags, its first byte, the byte after its last, and the number of its
children. Kinds and fields are numbers into a list of names.
-/
namespace CallGraph

open Json (Decoder)

/-- A file of a snapshot. -/
inductive SnapshotFile where
  | file (bytes : List UInt8) (tree? : Option SyntaxTree)
  | directory
deriving Inhabited

/-- The files of a snapshot, and the trees of the source texts among them. -/
structure Snapshot where
  files : FileSystem
  trees : List (String × SyntaxTree)
deriving Inhabited

namespace Snapshot

/-- The bytes that pairs of hexadecimal digits stand for. -/
def bytesOfHex : List Char → Except String (List UInt8)
  | [] => .ok []
  | high :: low :: rest =>
    match Json.hexValue? high, Json.hexValue? low with
    | some high, some low => (bytesOfHex rest).map fun bytes => (high * 16 + low).toUInt8 :: bytes
    | _, _ => .error "expected hexadecimal digits"
  | [_] => .error "expected pairs of hexadecimal digits"

/-- What the numbers of a row mean: the names they point to, and the text they cut. -/
structure RowContext where
  names : Array String
  source : ByteArray

/-- The name with a number. -/
def RowContext.name (context : RowContext) (position : Nat) : Except String String :=
  match context.names[position]? with
  | some name => .ok name
  | none => .error "expected the number of a name"

/-- The number of the field of a row, if there is one. -/
def fieldNumber? : Decoder (Option Nat)
  | .number "-1" => .ok none
  | value => (Decoder.nat value).map some

/-- The row of a node. -/
def row (context : RowContext) : Decoder SyntaxTree.Row
  | .array [kind, field, flags, start, stop, count] => do
    let field? ← fieldNumber? field
    let flags ← Decoder.nat flags
    let start ← Decoder.nat start
    let stop ← Decoder.nat stop
    let label : NodeLabel := {
      kind := ← context.name (← Decoder.nat kind)
      field? := ← field?.mapM context.name
      isNamed := flags.testBit 0
      isMissing := flags.testBit 1
      isError := flags.testBit 2
      hasError := flags.testBit 3
      text := Utf8.decodeLossy (context.source.extract start stop).data.toList
      start := start }
    pure ⟨label, ← Decoder.nat count⟩
  | _ => .error "expected six numbers"

/-- The tree of a source text. -/
def tree (source : String) : Decoder SyntaxTree := fun value => do
  let names ← Decoder.required "names" (Decoder.list Decoder.text) value
  let rows ← Decoder.required "nodes" (Decoder.list (row ⟨names.toArray, source.toUTF8⟩)) value
  match SyntaxTree.ofRows rows with
  | [tree] => pure tree
  | _ => .error "expected the rows of one tree"

/-- A file with its bytes; its tree is that of the text in it. -/
def fileOf (bytes : List UInt8) : Decoder SnapshotFile := fun value =>
  (Decoder.optional "tree" (tree (Utf8.decodeLossy bytes)) value).map (.file bytes)

/-- A file. -/
def file : Decoder SnapshotFile
  | .string text => .ok (.file (Utf8.encode text) none)
  | value => do
    match ← Decoder.optional "text" Decoder.text value with
    | some text => fileOf (Utf8.encode text) value
    | none =>
      match ← Decoder.optional "hex" Decoder.text value with
      | some digits => fileOf (← bytesOfHex digits.toList) value
      | none =>
        if ← Decoder.withDefault "dir" Decoder.truth false value then pure .directory
        else .error "expected a file or a directory"

/-- A snapshot with a file or directory added. -/
def add (snapshot : Snapshot) (path : Path) : SnapshotFile → Snapshot
  | .directory => { snapshot with files := snapshot.files.addDirectory path }
  | .file bytes none => { snapshot with files := snapshot.files.addFile path bytes }
  | .file bytes (some tree) => {
      files := snapshot.files.addFile path bytes
      trees := (Utf8.decodeLossy bytes, tree) :: snapshot.trees }

/-- The snapshot of the given files below a directory. -/
def ofFiles (directory : Path) : Decoder Snapshot := fun value => do
  let files ← Decoder.named file value
  let start : Snapshot := ⟨.empty directory, []⟩
  pure (files.foldl (fun snapshot (name, file) => snapshot.add ⟨name⟩ file) start)

/-- A snapshot with its directory. -/
def ofJson : Decoder Snapshot := fun value => do
  let directory ← Decoder.required "directory" Decoder.text value
  Decoder.required "files" (ofFiles ⟨directory⟩) value

def ofDocument (document : String) : Except String Snapshot := do
  let value ← (Json.read (Json.value Json.maxDepth) document).mapError Json.ReadError.message
  ofJson value

/-- The parser that knows the trees of a snapshot. -/
def grammar (snapshot : Snapshot) : Cpp.Grammar := fun text => snapshot.trees.lookup text

/-- The workspace of a snapshot. -/
def workspace (snapshot : Snapshot) : Workspace := Cpp.workspace snapshot.files snapshot.grammar

end Snapshot

end CallGraph
