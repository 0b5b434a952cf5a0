import CallGraph.Json.Reader
import CallGraph.Path
import CallGraph.Text.Quoted

/-!
# Requests

A request names a command and may carry parameters. It is an object, or an array of its two fields
in order; so are the parameters. What is wrong with parameters is said in terms of the field that
was expected.
-/
namespace CallGraph.Protocol

/-- A request; absent parameters and null ones are the same. -/
structure Request where
  command : String
  params? : Option Json
deriving Repr, Inhabited

/-- A request that is being read; a field that has not come yet is none. -/
structure RequestDraft where
  command : Option String
  params : Option (Option Json)
deriving Inhabited

open Json in
def readCommand (draft : RequestDraft) : Reader RequestDraft := fun tokens => do
  if draft.command.isSome then unexpected tokens
  else
    let (command, rest) ← text tokens
    pure ({ draft with command := some command }, rest)

open Json in
/-- Reads the parameters, which lie one level deep in the document. -/
def readParams (draft : RequestDraft) : Reader RequestDraft := fun tokens => do
  if draft.params.isSome then unexpected tokens
  else
    let (params, rest) ← nullable (value (maxDepth - 1)) tokens
    pure ({ draft with params := some params }, rest)

open Json in
def readMember (name? : Option String) (draft : RequestDraft) : Reader RequestDraft :=
  fun tokens =>
    match name? with
    | none => unexpected tokens
    | some name =>
      if name = "command" then readCommand draft tokens
      else if name = "params" then readParams draft tokens
      else do
        let ((), rest) ← skipValue tokens
        pure (draft, rest)

open Json in
def readRequest : Reader Request := fun tokens => do
  let start : RequestDraft := ⟨none, none⟩
  match tokens with
  | ⟨.openObject, _⟩ :: rest => do
    let (draft, rest) ← members readMember start rest
    match draft.command with
    | some command => pure (⟨command, draft.params.join⟩, rest)
    | none => unexpected rest
  | ⟨.openArray, _⟩ :: rest => do
    let (draft, rest) ← readCommand start rest
    let rest ← expect .comma rest
    let (draft, rest) ← readParams draft rest
    let rest ← expect .closeArray rest
    match draft.command with
    | some command => pure (⟨command, draft.params.join⟩, rest)
    | none => unexpected rest
  | tokens => unexpected tokens

def Request.ofText (text : String) : Except Json.ReadError Request := Json.read readRequest text

/-- What a value is, as an error message names it. -/
def describe : Json → String
  | .null => "null"
  | .bool value => "boolean `" ++ (if value then "true" else "false") ++ "`"
  | .number literal => ((Json.Number.ofLiteral? literal).map Json.Number.describe).getD "number"
  | .string text => "string " ++ Text.quoted text
  | .array _ => "sequence"
  | .object _ => "map"

/-- The error for a value of the wrong sort. -/
def wrongType {α : Type} (value : Json) (expected : String) : Except String α :=
  .error s!"invalid type: {describe value}, expected {expected}"

def asString (expected : String) : Json → Except String String
  | .string text => .ok text
  | value => wrongType value expected

def asBool : Json → Except String Bool
  | .bool value => .ok value
  | value => wrongType value "a boolean"

def asStrings : Json → Except String (List String)
  | .array items => items.mapM (asString "a string")
  | value => wrongType value "a sequence"

/-- The error for parameters that end too early. -/
def tooShort {α : Type} (length fields : Nat) (record : String) : Except String α :=
  let plural := if fields = 1 then "" else "s"
  .error s!"invalid length {length}, expected struct {record} with {fields} element{plural}"

/-- Refuses the items of an array after those that were asked for. -/
def noMore (items : List Json) (asked : Nat) : Except String Unit :=
  if items.length ≤ asked then .ok ()
  else .error s!"invalid length {items.length}, expected fewer elements in array"

/-- Parameters with a single field. -/
def singleField {α : Type} (record field : String) (read : Json → Except String α) (params : Json) :
    Except String α :=
  match params with
  | .array items =>
    match items with
    | [] => tooShort 0 1 record
    | item :: _ => do
      let value ← read item
      noMore items 1
      pure value
  | .object members =>
    match Json.member? members field with
    | some value => read value
    | none => .error s!"missing field `{field}`"
  | value => wrongType value s!"struct {record}"

/-- The parameters of commands on a callable: its identity. -/
def idParams : Json → Except String String := singleField "IdParams" "id" (asString "a string")

/-- The parameters of opening a project: a path. -/
def pathParams : Json → Except String Path := fun params =>
  (singleField "PathParams" "path" (asString "path string") params).map Path.mk

/-- The parameters of setting arguments: the arguments. -/
def argumentParams : Json → Except String (List String) :=
  singleField "ArgumentParams" "arguments" asStrings

/-- Parameters with a path and a truth value that may be left out. -/
def unitParams (params : Json) : Except String (Path × Bool) :=
  let record := "TranslationUnitParams"
  match params with
  | .array items =>
    match items with
    | [] => tooShort 0 2 record
    | file :: rest => do
      let path ← asString "path string" file
      let keepSystem ← match rest with
        | [] => pure false
        | value :: _ => asBool value
      noMore items 2
      pure (⟨path⟩, keepSystem)
  | .object members => do
    -- A value of the wrong sort is reported before a field that is missing.
    let path? ← (Json.member? members "file").mapM (asString "path string")
    let keepSystem? ← (Json.member? members "include_system_headers").mapM asBool
    match path? with
    | some path => pure (⟨path⟩, keepSystem?.getD false)
    | none => .error "missing field `file`"
  | value => wrongType value s!"struct {record}"

/-- The parameters of a request, as a command reads them. -/
def Request.params {α : Type} (request : Request) (read : Json → Except String α) :
    Except String α :=
  match request.params? with
  | none => .error s!"Missing params for {request.command}"
  | some params =>
    match read params with
    | .ok value => .ok value
    | .error reason => .error s!"Invalid params for {request.command}: {reason}"

end CallGraph.Protocol
