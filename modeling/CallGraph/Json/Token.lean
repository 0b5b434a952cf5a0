import CallGraph.Json.Number

/-!
# JSON tokens

The tokens of a JSON document. A string literal may hold half of a surrogate pair; such a string
has no text, which matters only where the text is used.
-/
namespace CallGraph.Json

inductive TokenKind where
  | openObject
  | closeObject
  | openArray
  | closeArray
  | colon
  | comma
  | null
  | bool (value : Bool)
  | number (literal : String)
  | string (text? : Option String)
deriving DecidableEq, Repr, Inhabited

/-- A token, and the text of the document from its start on. -/
structure Token where
  kind : TokenKind
  left : List Char
deriving DecidableEq, Repr, Inhabited

def hexValue? (c : Char) : Option Nat :=
  if '0' ≤ c ∧ c ≤ '9' then some (c.toNat - '0'.toNat)
  else if 'a' ≤ c ∧ c ≤ 'f' then some (c.toNat - 'a'.toNat + 10)
  else if 'A' ≤ c ∧ c ≤ 'F' then some (c.toNat - 'A'.toNat + 10)
  else none

/-- The number of four hexadecimal digits at the front of a text, and the rest. -/
def fourHex? : List Char → Option (Nat × List Char)
  | a :: b :: c :: d :: rest => do
    let a ← hexValue? a
    let b ← hexValue? b
    let c ← hexValue? c
    let d ← hexValue? d
    pure (((a * 16 + b) * 16 + c) * 16 + d, rest)
  | _ => none

/-- Whether a number is the first half of a surrogate pair. -/
def isHighSurrogate (n : Nat) : Bool := 0xD800 ≤ n && n ≤ 0xDBFF

/-- Whether a number is the second half of a surrogate pair. -/
def isLowSurrogate (n : Nat) : Bool := 0xDC00 ≤ n && n ≤ 0xDFFF

/-- The character after `\u`, none for a half pair, and the rest. -/
def unicodeEscape? (chars : List Char) : Option (Option Char × List Char) := do
  let (first, rest) ← fourHex? chars
  if isHighSurrogate first then
    match rest with
    | '\\' :: 'u' :: more =>
      match fourHex? more with
      | some (second, rest') =>
        if isLowSurrogate second then
          pure (some (Char.ofNat (0x10000 + (first - 0xD800) * 0x400 + (second - 0xDC00))), rest')
        else pure (none, rest)
      | none => pure (none, rest)
    | _ => pure (none, rest)
  else if isLowSurrogate first then pure (none, rest)
  else pure (some (Char.ofNat first), rest)

/-- The character that a one-letter escape stands for. -/
def simpleEscape? (c : Char) : Option Char :=
  if c = '"' ∨ c = '\\' ∨ c = '/' then some c
  else if c = 'b' then some (Char.ofNat 8)
  else if c = 'f' then some (Char.ofNat 12)
  else if c = 'n' then some '\n'
  else if c = 'r' then some '\r'
  else if c = 't' then some '\t'
  else none

/--
The characters of a string literal after its opening quote, none for each half pair, and what
follows the closing quote. An error gives the text where it is. Every round takes a character.
-/
def stringBody : Nat → List Char → Except (List Char) (List (Option Char) × List Char)
  | 0, chars => .error chars
  | _ + 1, [] => .error []
  | fuel + 1, c :: rest =>
    if c = '"' then .ok ([], rest)
    else if c = '\\' then
      match rest with
      | [] => .error []
      | escape :: rest' =>
        if escape = 'u' then
          match unicodeEscape? rest' with
          | none => .error rest'
          | some (char?, rest'') => do
            let (chars, left) ← stringBody fuel rest''
            pure (char? :: chars, left)
        else
          match simpleEscape? escape with
          | none => .error rest
          | some char => do
            let (chars, left) ← stringBody fuel rest'
            pure (some char :: chars, left)
    else if c.toNat < 32 then .error (c :: rest)
    else do
      let (chars, left) ← stringBody fuel rest
      pure (some c :: chars, left)

/-- Whether a character separates tokens. -/
def isSpace (c : Char) : Bool := c = ' ' || c = '\n' || c = '\t' || c = '\r'

/-- The token that a text starts with, if it is a sign or a word, and the rest. -/
def fixedToken? : List Char → Option (TokenKind × List Char)
  | '\x7b' :: rest => some (.openObject, rest)
  | '\x7d' :: rest => some (.closeObject, rest)
  | '[' :: rest => some (.openArray, rest)
  | ']' :: rest => some (.closeArray, rest)
  | ':' :: rest => some (.colon, rest)
  | ',' :: rest => some (.comma, rest)
  | 'n' :: 'u' :: 'l' :: 'l' :: rest => some (.null, rest)
  | 't' :: 'r' :: 'u' :: 'e' :: rest => some (.bool true, rest)
  | 'f' :: 'a' :: 'l' :: 's' :: 'e' :: rest => some (.bool false, rest)
  | _ => none

/-- Whether a character may stand in a number. -/
def isNumberChar (c : Char) : Bool := c.isDigit || c ∈ ['-', '+', '.', 'e', 'E']

/-- The number that a text starts with, as it is written, and the rest. -/
def numberToken? (chars : List Char) : Option (String × List Char) :=
  let span := chars.takeWhile isNumberChar
  (readLiteral? span).map fun (_, unread) =>
    (String.ofList (span.take (span.length - unread.length)),
      unread ++ chars.dropWhile isNumberChar)

/-- The token that a text starts with, and the rest; `fuel` exceeds the length of the text. -/
def nextToken (fuel : Nat) (chars : List Char) : Except (List Char) (TokenKind × List Char) :=
  match chars with
  | '"' :: rest => do
    let (body, left) ← stringBody fuel rest
    pure (.string ((body.mapM id).map String.ofList), left)
  | _ =>
    match fixedToken? chars with
    | some found => .ok found
    | none =>
      match numberToken? chars with
      | some (literal, left) => .ok (.number literal, left)
      | none => .error chars

/-- The tokens of a text; an error gives the text where it is. -/
def tokensFrom : Nat → List Char → Except (List Char) (List Token)
  | 0, chars => .error chars
  | _ + 1, [] => .ok []
  | fuel + 1, c :: rest =>
    if isSpace c then tokensFrom fuel rest
    else do
      let (kind, left) ← nextToken (fuel + 1) (c :: rest)
      let tokens ← tokensFrom fuel left
      pure (⟨kind, c :: rest⟩ :: tokens)

/-- The tokens of a document. Every token has a character, so the fuel suffices. -/
def tokens (document : String) : Except (List Char) (List Token) :=
  let chars := document.toList
  tokensFrom (chars.length + 1) chars

end CallGraph.Json
