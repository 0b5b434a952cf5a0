import CallGraph.Json.Token
import CallGraph.Json.Value

/-!
# Reading JSON documents

Readers take tokens from the front of a document and return what they read with the tokens that
are left. A reader for values is strict: it refuses values nested too deeply, numbers that are too
large and strings without a text. Members that a document's reader does not ask for are skipped
and need only be well-formed.
-/
namespace CallGraph.Json

/-- A reader: what it reads and the tokens left, or the text of the document at the error. -/
abbrev Reader (α : Type) := List Token → Except (List Char) (α × List Token)

/-- The error at the next token. -/
def unexpected {α : Type} (tokens : List Token) : Except (List Char) α :=
  .error ((tokens.head?.map Token.left).getD [])

def expect (kind : TokenKind) (tokens : List Token) : Except (List Char) (List Token) :=
  match tokens with
  | token :: rest => if token.kind = kind then .ok rest else .error token.left
  | [] => .error []

/-- Reads the items of an array after the first, up to its end. Each takes a comma, so as many
rounds as there are tokens suffice. -/
def itemsAfter {σ : Type} (item : σ → Reader σ) : Nat → σ → Reader σ
  | 0, _, tokens => unexpected tokens
  | rounds + 1, state, tokens =>
    match tokens with
    | ⟨.closeArray, _⟩ :: rest => .ok (state, rest)
    | ⟨.comma, _⟩ :: rest => do
      let (state, rest) ← item state rest
      itemsAfter item rounds state rest
    | tokens => unexpected tokens

/-- Reads the items of an array after its opening bracket. -/
def items {σ : Type} (item : σ → Reader σ) (state : σ) : Reader σ := fun tokens =>
  match tokens with
  | ⟨.closeArray, _⟩ :: rest => .ok (state, rest)
  | tokens => do
    let (state, rest) ← item state tokens
    itemsAfter item tokens.length state rest

/-- Reads one member of an object. The name is none if it has no text. -/
def oneMember {σ : Type} (member : Option String → σ → Reader σ) (state : σ) : Reader σ :=
  fun tokens =>
    match tokens with
    | ⟨.string name?, _⟩ :: rest => do
      let rest ← expect .colon rest
      member name? state rest
    | tokens => unexpected tokens

/-- Reads the members of an object after the first, up to its end. -/
def membersAfter {σ : Type} (member : Option String → σ → Reader σ) : Nat → σ → Reader σ
  | 0, _, tokens => unexpected tokens
  | rounds + 1, state, tokens =>
    match tokens with
    | ⟨.closeObject, _⟩ :: rest => .ok (state, rest)
    | ⟨.comma, _⟩ :: rest => do
      let (state, rest) ← oneMember member state rest
      membersAfter member rounds state rest
    | tokens => unexpected tokens

/-- Reads the members of an object after its opening brace. -/
def members {σ : Type} (member : Option String → σ → Reader σ) (state : σ) : Reader σ :=
  fun tokens =>
    match tokens with
    | ⟨.closeObject, _⟩ :: rest => .ok (state, rest)
    | tokens => do
      let (state, rest) ← oneMember member state tokens
      membersAfter member tokens.length state rest

/-- Reads past a value without looking at it. -/
def skip : Nat → Reader Unit
  | 0, tokens => unexpected tokens
  | fuel + 1, tokens =>
    match tokens with
    | ⟨.null, _⟩ :: rest => .ok ((), rest)
    | ⟨.bool _, _⟩ :: rest => .ok ((), rest)
    | ⟨.number _, _⟩ :: rest => .ok ((), rest)
    | ⟨.string _, _⟩ :: rest => .ok ((), rest)
    | ⟨.openArray, _⟩ :: rest => items (fun _ => skip fuel) () rest
    | ⟨.openObject, _⟩ :: rest => members (fun _ _ => skip fuel) () rest
    | tokens => unexpected tokens

/-- Reads past a value. Every level of nesting takes a token, so the fuel suffices. -/
def skipValue : Reader Unit := fun tokens => skip (tokens.length + 1) tokens

/-- How deep a document may be nested. -/
def maxDepth : Nat := 127

/-- Reads a value with at most `depth` levels of nesting. -/
def value : Nat → Reader Json
  | depth, tokens =>
    match tokens with
    | ⟨.null, _⟩ :: rest => .ok (.null, rest)
    | ⟨.bool value, _⟩ :: rest => .ok (.bool value, rest)
    | ⟨.number literal, left⟩ :: rest =>
      if (Number.ofLiteral? literal).isSome then .ok (.number literal, rest) else .error left
    | ⟨.string text?, left⟩ :: rest =>
      match text? with
      | some text => .ok (.string text, rest)
      | none => .error left
    | ⟨.openArray, left⟩ :: rest =>
      match depth with
      | 0 => .error left
      | depth + 1 => do
        let item : List Json → Reader (List Json) := fun read tokens => do
          let (next, rest) ← value depth tokens
          pure (next :: read, rest)
        let (read, rest) ← items item [] rest
        pure (.array read.reverse, rest)
    | ⟨.openObject, left⟩ :: rest =>
      match depth with
      | 0 => .error left
      | depth + 1 => do
        let member : Option String → List (String × Json) → Reader (List (String × Json)) :=
          fun name? read tokens =>
            match name? with
            | none => unexpected tokens
            | some name => do
              let (next, rest) ← value depth tokens
              pure ((name, next) :: read, rest)
        let (read, rest) ← members member [] rest
        pure (.object read.reverse, rest)
    | tokens => unexpected tokens

/-- Reads a string that has a text. -/
def text : Reader String := fun tokens =>
  match tokens with
  | ⟨.string (some text), _⟩ :: rest => .ok (text, rest)
  | tokens => unexpected tokens

/-- Reads with `reader`, or null as nothing. -/
def nullable {α : Type} (reader : Reader α) : Reader (Option α) := fun tokens =>
  match tokens with
  | ⟨.null, _⟩ :: rest => .ok (none, rest)
  | tokens => do
    let (found, rest) ← reader tokens
    pure (some found, rest)

def texts : Reader (List String) := fun tokens => do
  let rest ← expect .openArray tokens
  let item : List String → Reader (List String) := fun read tokens => do
    let (next, rest) ← text tokens
    pure (next :: read, rest)
  let (read, rest) ← items item [] rest
  pure (read.reverse, rest)

/-- A place in a document where it is not what it should be. -/
structure ReadError where
  line : Nat
  column : Nat
deriving DecidableEq, Repr, Inhabited

def ReadError.message (error : ReadError) : String :=
  s!"unexpected text at line {error.line} column {error.column}"

/-- The place at which the rest of a document is left. -/
def ReadError.ofLeft (document : String) (left : List Char) : ReadError :=
  let chars := document.toList
  let before := chars.take (chars.length - left.length)
  ⟨before.countP (· == '\n') + 1, (before.reverse.takeWhile (· ≠ '\n')).length + 1⟩

def read {α : Type} (reader : Reader α) (document : String) : Except ReadError α :=
  let result : Except (List Char) α := do
    let all ← tokens document
    let (found, rest) ← reader all
    match rest with
    | [] => .ok found
    | token :: _ => .error token.left
  result.mapError (ReadError.ofLeft document)

end CallGraph.Json
