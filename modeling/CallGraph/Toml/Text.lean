/-!
# TOML texts

The four forms of strings, comments, blanks and line ends. A reader takes characters from the
front of a document and returns what it read with those that are left; it fails on anything that
is not allowed there.
-/
namespace CallGraph.Toml

/-- Whether a character is a control character other than a tab. -/
def isControl (c : Char) : Bool := (c.toNat < 32 && c != '\t') || c.toNat = 127

/-- Passes over blanks and tabs. -/
def skipBlanks (chars : List Char) : List Char := chars.dropWhile fun c => c == ' ' || c == '\t'

/-- Passes over one line end. -/
def lineEnd? : List Char → Option (List Char)
  | '\n' :: rest => some rest
  | '\r' :: '\n' :: rest => some rest
  | _ => none

/-- Passes over a comment, if there is one, up to its line end. -/
def skipComment (chars : List Char) : List Char :=
  match chars with
  | '#' :: rest => rest.dropWhile fun c => !isControl c
  | _ => chars

/-- Passes over what may stand after a value or a header on its line, and the line end. -/
def finishLine? (chars : List Char) : Option (List Char) :=
  match skipComment (skipBlanks chars) with
  | [] => some []
  | rest => lineEnd? rest

/-- Passes over blanks, comments and line ends. -/
def skipSpace : Nat → List Char → Option (List Char)
  | 0, _ => none
  | fuel + 1, chars =>
    match skipBlanks chars with
    | '#' :: rest =>
      match rest.dropWhile fun c => !isControl c with
      | [] => some []
      | rest =>
        match lineEnd? rest with
        | some rest => skipSpace fuel rest
        | none => none
    | '\n' :: rest => skipSpace fuel rest
    | '\r' :: '\n' :: rest => skipSpace fuel rest
    | rest => some rest

def hexDigit? (c : Char) : Option Nat :=
  if '0' ≤ c ∧ c ≤ '9' then some (c.toNat - '0'.toNat)
  else if 'a' ≤ c ∧ c ≤ 'f' then some (c.toNat - 'a'.toNat + 10)
  else if 'A' ≤ c ∧ c ≤ 'F' then some (c.toNat - 'A'.toNat + 10)
  else none

/-- The character with the code point of so many hexadecimal digits. -/
def codePoint? (digits : Nat) (chars : List Char) : Option (Char × List Char) :=
  let code? := if chars.length < digits then none
    else (chars.take digits).foldlM (fun n c => (hexDigit? c).map fun d => n * 16 + d) 0
  code?.bind fun code =>
    if code < 0xD800 ∨ (0xDFFF < code ∧ code < 0x110000) then
      some (Char.ofNat code, chars.drop digits)
    else none

/-- The character of an escape, after its backslash. -/
def escape? : List Char → Option (Char × List Char)
  | 'b' :: rest => some (Char.ofNat 8, rest)
  | 't' :: rest => some ('\t', rest)
  | 'n' :: rest => some ('\n', rest)
  | 'f' :: rest => some (Char.ofNat 12, rest)
  | 'r' :: rest => some ('\r', rest)
  | '"' :: rest => some ('"', rest)
  | '\\' :: rest => some ('\\', rest)
  | 'u' :: rest => codePoint? 4 rest
  | 'U' :: rest => codePoint? 8 rest
  | _ => none

/-- Puts a character in front of what is read after it. -/
def consRead (c : Char) : Option (List Char × List Char) → Option (List Char × List Char) :=
  Option.map fun (chars, rest) => (c :: chars, rest)

/-- A string in double quotes, after the first. -/
def basic? : Nat → List Char → Option (List Char × List Char)
  | 0, _ => none
  | _ + 1, [] => none
  | fuel + 1, c :: rest =>
    if c = '"' then some ([], rest)
    else if c = '\\' then (escape? rest).bind fun (c, rest) => consRead c (basic? fuel rest)
    else if isControl c then none
    else consRead c (basic? fuel rest)

/-- A string in single quotes, after the first. -/
def literal? : Nat → List Char → Option (List Char × List Char)
  | 0, _ => none
  | _ + 1, [] => none
  | fuel + 1, c :: rest =>
    if c = '\'' then some ([], rest)
    else if isControl c then none
    else consRead c (literal? fuel rest)

/-- Passes over blanks and line ends. -/
def skipLines (chars : List Char) : List Char :=
  match chars with
  | ' ' :: rest | '\t' :: rest | '\n' :: rest => skipLines rest
  | '\r' :: '\n' :: rest => skipLines rest
  | rest => rest

/-- What a backslash at the end of a line joins, after the backslash. -/
def continuation? (chars : List Char) : Option (List Char) :=
  (lineEnd? (skipBlanks chars)).map skipLines

/--
A string between triple quotes, after them. Up to two quotes may stand directly before the three
that end it.
-/
def multiline? (quote : Char) (escapes : Bool) : Nat → List Char → Option (List Char × List Char)
  | 0, _ => none
  | _ + 1, [] => none
  | fuel + 1, c :: rest =>
    if c = quote then
      let run := ((c :: rest).takeWhile (· == quote)).length
      if run ≥ 6 then none
      else if run ≥ 3 then some (List.replicate (run - 3) quote, (c :: rest).drop run)
      else consRead c (multiline? quote escapes fuel rest)
    else if c = '\\' ∧ escapes then
      match continuation? rest with
      | some rest => multiline? quote escapes fuel rest
      | none =>
        (escape? rest).bind fun (c, rest) => consRead c (multiline? quote escapes fuel rest)
    else
      match lineEnd? (c :: rest) with
      | some rest => consRead '\n' (multiline? quote escapes fuel rest)
      | none => if isControl c then none else consRead c (multiline? quote escapes fuel rest)

/-- Passes over a line end directly after the quotes that open a string. -/
def dropFirstLineEnd (chars : List Char) : List Char := (lineEnd? chars).getD chars

def string? (chars : List Char) : Option (List Char × List Char) :=
  let fuel := chars.length + 1
  let long (quote : Char) (escapes : Bool) (rest : List Char) : Option (List Char × List Char) :=
    multiline? quote escapes fuel (dropFirstLineEnd rest)
  match chars with
  | '"' :: '"' :: '"' :: rest => long '"' true rest
  | '\'' :: '\'' :: '\'' :: rest => long '\'' false rest
  | '"' :: rest => basic? fuel rest
  | '\'' :: rest => literal? fuel rest
  | _ => none

end CallGraph.Toml
