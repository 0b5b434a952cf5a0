import CallGraph.Error
import CallGraph.FileSystem
import CallGraph.Toml.Document

/-!
# Configuration

Settings that apply to every run. They come from a file that is named, or else from the default
file of the working directory if there is one. A setting that the file does not give has its
default value, and keys that mean nothing are passed over.
-/
namespace CallGraph

structure ServerConfig where
  host : String
  port : Nat
deriving DecidableEq, Repr, Inhabited

structure Config where
  /-- Compiler arguments that are added to those of every file. -/
  extraArguments : List String
  keepSystem : Bool
  /-- What labels are relative to. -/
  displayRoot? : Option Path
  /-- How many workers look through candidate files. -/
  threads? : Option Nat
  server : ServerConfig
deriving DecidableEq, Repr, Inhabited

namespace Config

def default : Config := ⟨[], false, none, none, ⟨"127.0.0.1", 7878⟩⟩

def defaultFile : Path := ⟨"callscope.toml"⟩

/-- The error for a setting of the wrong sort. -/
def wrong {α : Type} (key expected : String) : Except String α :=
  .error s!"'{key}' should be {expected}"

/-- Reads a setting if it is given. -/
def setting {α : Type} (table : TomlTable) (key : String) (initial : α)
    (read : Toml → Except String α) : Except String α :=
  match table.find? key with
  | some value => read value
  | none => .ok initial

def asString (key : String) : Toml → Except String String
  | .string text => .ok text
  | _ => wrong key "a string"

def asBool (key : String) : Toml → Except String Bool
  | .boolean value => .ok value
  | _ => wrong key "a boolean"

/-- A setting that is a natural number up to a limit. -/
def asNat (key : String) (limit : Nat) : Toml → Except String Nat
  | .integer value =>
    if 0 ≤ value ∧ value ≤ limit then .ok value.toNat
    else wrong key s!"an integer from 0 to {limit}"
  | _ => wrong key "an integer"

def asStrings (key : String) : Toml → Except String (List String)
  | .array items => items.mapM (asString key)
  | _ => wrong key "an array of strings"

def maxPort : Nat := 65535

def maxThreads : Nat := Nat.pow 2 64 - 1

/--
The server's settings: a table, or an array of its fields in order. A date is a table without any
of the settings.
-/
def asServer : Toml → Except String ServerConfig
  | .table table => do
    let host ← setting table "host" default.server.host (asString "host")
    let port ← setting table "port" default.server.port (asNat "port" maxPort)
    pure ⟨host, port⟩
  | .date => .ok default.server
  | .array items => do
    let host ← ((items[0]?).map (asString "host")).getD (.ok default.server.host)
    let port ← ((items[1]?).map (asNat "port" maxPort)).getD (.ok default.server.port)
    pure ⟨host, port⟩
  | _ => wrong "server" "a table"

def ofDocument (document : String) : Except String Config :=
  match Toml.ofDocument? document with
  | none => .error "the document is not well-formed"
  | some table => do
    let extraArguments ← setting table "extra_arguments" [] (asStrings "extra_arguments")
    let keepSystem ← setting table "include_system_headers" false
      (asBool "include_system_headers")
    let displayRoot? ← setting table "display_root" none fun value =>
      (asString "display_root" value).map fun text => some ⟨text⟩
    let threads? ← setting table "threads" none fun value =>
      (asNat "threads" maxThreads value).map some
    let server ← setting table "server" default.server asServer
    pure ⟨extraArguments, keepSystem, displayRoot?, threads?, server⟩

def ofFile (files : FileSystem) (path : Path) : Except Failure Config :=
  match files.readText path with
  | .error error => .error (.badRequest s!"Failed to read config {path.text}: {error.message}")
  | .ok document =>
    (ofDocument document).mapError fun reason =>
      .badRequest s!"Invalid config {path.text}: {reason}"

/-- The settings of the file that is named, or of the default file, or the defaults. -/
def load (files : FileSystem) (path? : Option Path) : Except Failure Config :=
  match path? with
  | some path => ofFile files path
  | none => if files.isFile defaultFile then ofFile files defaultFile else .ok default

/-- The level of detail of log output, by how often more of it was asked for. -/
def logLevel : Nat → String
  | 0 => "warn"
  | 1 => "info"
  | 2 => "debug"
  | _ => "trace"

end Config

end CallGraph
