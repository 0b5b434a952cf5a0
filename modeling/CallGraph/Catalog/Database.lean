import CallGraph.Json.Reader

/-!
# Compilation databases

The document that lists how each file of a project is compiled: a JSON array with one entry per
file. An entry is an object, or an array of its fields in a fixed order. Fields other than those
read here are skipped.
-/
namespace CallGraph.Database

/-- One entry as written; an absent field and a null one are the same. -/
structure Entry where
  file : String
  directory? : Option String
  command? : Option String
  arguments? : Option (List String)
deriving DecidableEq, Repr, Inhabited

/-- An entry that is being read; a field that has not come yet is none. -/
structure Draft where
  file : Option String
  directory : Option (Option String)
  command : Option (Option String)
  arguments : Option (Option (List String))
deriving Inhabited

/-- The entry that a draft amounts to; only the file is required. -/
def Draft.entry? (draft : Draft) : Option Entry :=
  draft.file.map fun file =>
    ⟨file, draft.directory.join, draft.command.join, draft.arguments.join⟩

open Json in
def field (draft : Draft) (position : Nat) : Reader Draft := fun tokens =>
  match position with
  | 0 => do
    if draft.file.isSome then unexpected tokens
    else
      let (file, rest) ← text tokens
      pure ({ draft with file := some file }, rest)
  | 1 => do
    if draft.directory.isSome then unexpected tokens
    else
      let (directory, rest) ← nullable text tokens
      pure ({ draft with directory := some directory }, rest)
  | 2 => do
    if draft.command.isSome then unexpected tokens
    else
      let (command, rest) ← nullable text tokens
      pure ({ draft with command := some command }, rest)
  | 3 => do
    if draft.arguments.isSome then unexpected tokens
    else
      let (arguments, rest) ← nullable texts tokens
      pure ({ draft with arguments := some arguments }, rest)
  | _ => unexpected tokens

open Json in
def member (name? : Option String) (draft : Draft) : Reader Draft := fun tokens =>
  match name? with
  | none => unexpected tokens
  | some name =>
    match ["file", "directory", "command", "arguments"].idxOf? name with
    | some position => field draft position tokens
    | none => do
      let ((), rest) ← skipValue tokens
      pure (draft, rest)

open Json in
def item (state : Draft × Nat) : Reader (Draft × Nat) := fun tokens => do
  let (draft, rest) ← field state.1 state.2 tokens
  pure ((draft, state.2 + 1), rest)

open Json in
def entry : Reader Entry := fun tokens => do
  let (draft, rest) ← match tokens with
    | ⟨.openObject, _⟩ :: rest => members member ⟨none, none, none, none⟩ rest
    | ⟨.openArray, _⟩ :: rest => do
      let (state, rest) ← items item (⟨none, none, none, none⟩, 0) rest
      pure (state.1, rest)
    | tokens => unexpected tokens
  match draft.entry? with
  | some entry => pure (entry, rest)
  | none => unexpected tokens

open Json in
def entries : Reader (List Entry) := fun tokens => do
  let rest ← expect .openArray tokens
  let next : List Entry → Reader (List Entry) := fun sofar tokens => do
    let (found, rest) ← entry tokens
    pure (found :: sofar, rest)
  let (all, rest) ← items next [] rest
  pure (all.reverse, rest)

def ofDocument (document : String) : Except Json.ReadError (List Entry) :=
  Json.read entries document

end CallGraph.Database
