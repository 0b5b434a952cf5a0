import CallGraph.Decimal.Shortest

/-!
# JSON numbers

What the text of a number means: an integer if it is written as one and fits into 64 bits, a
floating-point number otherwise. Digits beyond the first that fit into 64 bits only scale the
number, and a number too large for a floating-point value has no meaning.
-/
namespace CallGraph.Json

/-- The meaning of a number. -/
inductive Number where
  | integer (value : Int)
  | float (value : Float)
deriving Repr, Inhabited

/-- The parts of the text of a number. -/
structure Literal where
  negative : Bool
  whole : List Nat
  /-- The digits after the point, if there is one. -/
  fraction? : Option (List Nat)
  /-- The sign and the digits of the exponent, if there is one. -/
  exponent? : Option (Bool × List Nat)
deriving Repr, Inhabited

def digitValue (c : Char) : Nat := c.toNat - '0'.toNat

/-- The digits at the front of a text, and the rest. -/
def spanDigits (chars : List Char) : List Nat × List Char :=
  ((chars.takeWhile Char.isDigit).map digitValue, chars.dropWhile Char.isDigit)

/-- The exponent that a text starts with, and the rest; none if one is begun and not finished. -/
def readExponent? : List Char → Option (Option (Bool × List Nat) × List Char)
  | c :: rest =>
    if c = 'e' ∨ c = 'E' then
      let (negative, rest) := match rest with
        | '+' :: rest => (false, rest)
        | '-' :: rest => (true, rest)
        | rest => (false, rest)
      match spanDigits rest with
      | ([], _) => none
      | (digits, rest) => some (some (negative, digits), rest)
    else some (none, c :: rest)
  | [] => some (none, [])

/-- The digits after a point that a text starts with, and the rest. -/
def readFraction? : List Char → Option (Option (List Nat) × List Char)
  | '.' :: rest =>
    match spanDigits rest with
    | ([], _) => none
    | (digits, rest) => some (some digits, rest)
  | rest => some (none, rest)

/-- The number that a text starts with, and the rest. -/
def readLiteral? (chars : List Char) : Option (Literal × List Char) := do
  let (negative, chars) := match chars with
    | '-' :: rest => (true, rest)
    | rest => (false, rest)
  let (whole, rest) ← match chars with
    | '0' :: rest => some ([0], rest)
    | rest =>
      match spanDigits rest with
      | ([], _) => none
      | found => some found
  let (fraction?, rest) ← readFraction? rest
  let (exponent?, rest) ← readExponent? rest
  pure (⟨negative, whole, fraction?, exponent?⟩, rest)

def maxWord : Nat := Nat.pow 2 64 - 1

/-- Reads digits as long as the number fits into 64 bits; returns the digits that are left. -/
def fitDigits : Nat → List Nat → Nat × List Nat
  | n, [] => (n, [])
  | n, digit :: rest =>
    if n * 10 + digit > maxWord then (n, digit :: rest) else fitDigits (n * 10 + digit) rest

/-- `base * 10 ^ exponent` scaled in steps of at most 308 places; none if it is too large. -/
def scaleFloat? : Nat → Float → Int → Option Float
  | 0, f, _ => some f
  | steps + 1, f, exponent =>
    if exponent.natAbs ≤ 308 then
      let power := Float.ofScientific 1 false exponent.natAbs
      if exponent ≥ 0 then
        let scaled := f * power
        if scaled.isInf then none else some scaled
      else some (f / power)
    else if f == 0.0 then some f
    else if exponent ≥ 0 then none
    else scaleFloat? steps (f / Float.ofScientific 1 false 308) (exponent + 308)

/-- The floating-point number with the given significand and decimal exponent. -/
def floatOf? (negative : Bool) (significand : Nat) (exponent : Int) : Option Number :=
  let start := significand.toUInt64.toFloat
  (scaleFloat? 8 start exponent).map fun f => .float (if negative then -f else f)

/-- The first exponent that is too large to be read. -/
def exponentLimit : Nat := Nat.pow 2 31

/-- Whether a list of digits exceeds the largest exponent that is read. -/
def exponentTooLarge (digits : List Nat) : Bool :=
  digits.foldl (fun n digit => min (n * 10 + digit) exponentLimit) 0 ≥ exponentLimit

/-- `exponent` limited to what is read of exponents. -/
def clampExponent (exponent : Int) : Int :=
  max (-(exponentLimit : Int)) (min ((exponentLimit : Int) - 1) exponent)

/-- Applies the exponent of a literal. -/
def applyExponent? (literal : Literal) (significand : Nat) (exponent : Int) : Option Number :=
  match literal.exponent? with
  | none => floatOf? literal.negative significand exponent
  | some (negative, digits) =>
    if exponentTooLarge digits then
      if significand ≠ 0 && !negative then none
      else some (.float (if literal.negative then -0.0 else 0.0))
    else
      let written := Int.ofNat (digits.foldl (fun n digit => n * 10 + digit) 0)
      floatOf? literal.negative significand
        (clampExponent (if negative then exponent - written else exponent + written))

/-- The meaning of a number that is not written as an integer, or does not fit into one. -/
def meaningOfParts? (literal : Literal) (significand : Nat) (exponent : Int) : Option Number :=
  match literal.fraction? with
  | none => applyExponent? literal significand exponent
  | some digits =>
    let (significand, unread) := fitDigits significand digits
    applyExponent? literal significand (exponent - (digits.length - unread.length : Nat))

/-- The meaning of a number; none if it is too large. -/
def Literal.meaning? (literal : Literal) : Option Number :=
  let (significand, unread) := fitDigits 0 literal.whole
  if unread ≠ [] ∨ literal.fraction?.isSome ∨ literal.exponent?.isSome then
    meaningOfParts? literal significand unread.length
  -- Zero with a minus sign is no integer, nor is what lies below the smallest one.
  else if !literal.negative then some (.integer significand)
  else if significand = 0 ∨ significand > Nat.pow 2 63 then
    some (.float (-significand.toUInt64.toFloat))
  else some (.integer (-significand))

def Number.ofLiteral? (text : String) : Option Number :=
  (readLiteral? text.toList).bind fun (literal, _) => literal.meaning?

/-- A number as people see it, with its sort. -/
def Number.describe : Number → String
  | .integer value => "integer `" ++ toString value ++ "`"
  | .float value => "floating point `" ++ Decimal.render value ++ "`"

end CallGraph.Json
