import CallGraph.Toml.Scalar

/-!
# TOML documents

Reading a whole document: keys with values, and headers that open tables.
-/
namespace CallGraph.Toml

/-- How deep values may be nested, and how many parts a key may have. -/
def maxDepth : Nat := 79

/-- Whether a character may stand in a key without quotes. -/
def isBare (c : Char) : Bool := c.isAlphanum || c == '_' || c == '-'

def keyPart? (chars : List Char) : Option (String × List Char) :=
  let fuel := chars.length + 1
  let quotedPart (found : Option (List Char × List Char)) : Option (String × List Char) :=
    found.map fun (text, rest) => (String.ofList text, rest)
  match chars with
  | '"' :: rest => quotedPart (basic? fuel rest)
  | '\'' :: rest => quotedPart (literal? fuel rest)
  | chars =>
    match chars.takeWhile isBare with
    | [] => none
    | name => some (String.ofList name, chars.dropWhile isBare)

/-- A key with its parts; blanks may surround the dots. -/
def keyParts? : Nat → List Char → Option (List String × List Char)
  | 0, _ => none
  | fuel + 1, chars => do
    let (part, rest) ← keyPart? chars
    match skipBlanks rest with
    | '.' :: more =>
      let (parts, rest) ← keyParts? fuel (skipBlanks more)
      pure (part :: parts, rest)
    | rest => pure ([part], rest)

/-- A key: the parts before the last, and the last. Blanks after it are passed over. -/
def key? (chars : List Char) : Option ((List String × String) × List Char) := do
  let (parts, rest) ← keyParts? (chars.length + 1) chars
  if parts.length > maxDepth then none
  else
    let last ← parts.getLast?
    pure ((parts.dropLast, last), rest)

/-- The items of an array, after its opening bracket, with `value` for each. -/
def items? (value : List Char → Option (Toml × List Char)) :
    Nat → List Char → Option (List Toml × List Char)
  | 0, _ => none
  | fuel + 1, chars => do
    let rest ← skipSpace (chars.length + 1) chars
    match rest with
    | ']' :: rest => pure ([], rest)
    | rest =>
      let (item, rest) ← value rest
      let rest ← skipSpace (rest.length + 1) rest
      match rest with
      | ']' :: rest => pure ([item], rest)
      | ',' :: rest =>
        let (items, rest) ← items? value fuel rest
        pure (item :: items, rest)
      | _ => none

/-- The members of a table in braces, after the brace or a comma, with `value` for each. -/
def members? (value : List Char → Option (Toml × List Char)) :
    Nat → TomlTable → List Char → Option (TomlTable × List Char)
  | 0, _, _ => none
  | fuel + 1, braces, chars => do
    let ((path, key), rest) ← key? (skipBlanks chars)
    let rest ← char? '=' rest
    let (found, rest) ← value (skipBlanks rest)
    let grown ← braces.assign path key found
    match skipBlanks rest with
    | '\x7d' :: rest => pure (grown, rest)
    | ',' :: rest => members? value fuel grown rest
    | _ => none

/-- A value with at most `depth` levels of nesting. -/
def value? : Nat → List Char → Option (Toml × List Char)
  | depth, chars =>
    match chars with
    | '"' :: _ | '\'' :: _ =>
      (string? chars).map fun (text, rest) => (.string (String.ofList text), rest)
    | '[' :: rest =>
      match depth with
      | 0 => none
      | depth + 1 =>
        (items? (value? depth) (rest.length + 1) rest).map fun (items, rest) =>
          (.array items, rest)
    | '\x7b' :: rest =>
      match depth with
      | 0 => none
      | depth + 1 =>
        match skipBlanks rest with
        | '\x7d' :: rest => some (.table .empty, rest)
        | rest =>
          (members? (value? depth) (rest.length + 1) .empty rest).map fun (braces, rest) =>
            (.table braces, rest)
    | 't' :: 'r' :: 'u' :: 'e' :: rest => some (.boolean true, rest)
    | 'f' :: 'a' :: 'l' :: 's' :: 'e' :: rest => some (.boolean false, rest)
    | chars => scalar? chars

/-- A document that is being read: its table, and the header that keys stand under. -/
structure Draft where
  root : TomlTable
  header : List String

def Draft.pair? (draft : Draft) (chars : List Char) : Option (Draft × List Char) := do
  let ((path, key), rest) ← key? chars
  let rest ← char? '=' rest
  let (value, rest) ← value? maxDepth (skipBlanks rest)
  let rest ← finishLine? rest
  let root ← draft.root.atHeader (TomlTable.assign path key value) draft.header
  pure ({ draft with root }, rest)

def Draft.header? (draft : Draft) (isItem : Bool) (chars : List Char) :
    Option (Draft × List Char) := do
  let ((path, key), rest) ← key? (skipBlanks chars)
  let rest ← char? ']' rest
  let rest ← if isItem then char? ']' rest else some rest
  let rest ← finishLine? rest
  let root ← if isItem then draft.root.openItem path key else draft.root.openTable path key
  pure (⟨root, path ++ [key]⟩, rest)

def lines? : Nat → Draft → List Char → Option TomlTable
  | 0, _, _ => none
  | fuel + 1, draft, chars =>
    (skipSpace (chars.length + 1) chars).bind fun rest =>
      match rest with
      | [] => some draft.root
      | '[' :: '[' :: more =>
        (draft.header? true more).bind fun (draft, rest) => lines? fuel draft rest
      | '[' :: more =>
        (draft.header? false more).bind fun (draft, rest) => lines? fuel draft rest
      | rest => (draft.pair? rest).bind fun (draft, rest) => lines? fuel draft rest

/-- The table that a document writes out, if it is well-formed. -/
def ofDocument? (document : String) : Option TomlTable :=
  let chars := document.toList
  let chars := if chars.head? = some (Char.ofNat 0xFEFF) then chars.tail else chars
  lines? (chars.length + 1) ⟨.empty, []⟩ chars

end CallGraph.Toml
