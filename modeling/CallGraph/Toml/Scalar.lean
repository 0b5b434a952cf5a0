import CallGraph.Toml.Text
import CallGraph.Toml.Value

/-!
# TOML numbers and dates

Integers in four bases, floating-point numbers, dates and times. Integers have 64 bits; a positive
floating-point number that is too large is an error, and so is a day that its month does not have.
-/
namespace CallGraph.Toml

/-- The digits accepted by `isDigit` at the front of a text, single underscores between them. -/
def digitsAfter? (isDigit : Char → Bool) : Nat → List Char → Option (List Char × List Char)
  | 0, _ => none
  | fuel + 1, chars =>
    match chars with
    | '_' :: c :: rest =>
      if isDigit c then consRead c (digitsAfter? isDigit fuel rest) else none
    | ['_'] => none
    | c :: rest =>
      if isDigit c then consRead c (digitsAfter? isDigit fuel rest) else some ([], chars)
    | [] => some ([], [])

/-- Digits accepted by `isDigit`, at least one. -/
def digits? (isDigit : Char → Bool) (chars : List Char) : Option (List Char × List Char) :=
  match chars with
  | c :: rest =>
    if isDigit c then consRead c (digitsAfter? isDigit (chars.length + 1) rest) else none
  | [] => none

/-- The number that digits write in a base. -/
def numberOf (base : Nat) (digits : List Char) : Nat :=
  digits.foldl (fun n c => n * base + (hexDigit? c).getD 0) 0

/-- An integer if it fits into 64 bits. -/
def integer? (value : Int) : Option Toml :=
  if -(Nat.pow 2 63 : Int) ≤ value ∧ value < (Nat.pow 2 63 : Int) then some (.integer value) else none

/-- An integer in a base, after its mark. -/
def based? (base : Nat) (isDigit : Char → Bool) (chars : List Char) : Option (Toml × List Char) :=
  (digits? isDigit chars).bind fun (digits, rest) =>
    (integer? (numberOf base digits)).map fun value => (value, rest)

/-- The sign that a text starts with, and the rest. -/
def sign : List Char → Bool × List Char
  | '-' :: rest => (true, rest)
  | '+' :: rest => (false, rest)
  | rest => (false, rest)

/-- The digits of a decimal integer, which has no leading zero. -/
def whole? : List Char → Option (List Char × List Char)
  | '0' :: rest => some (['0'], rest)
  | rest => digits? Char.isDigit rest

/-- A decimal number in parts. -/
structure Decimal where
  negative : Bool
  whole : List Char
  fraction : List Char
  exponent : Int

/--
Whether a positive number is too large for a floating-point value: at least half a step above the
largest one.
-/
def Decimal.isTooLarge (number : Decimal) : Bool :=
  let significand := numberOf 10 (number.whole ++ number.fraction)
  let places := number.exponent - number.fraction.length
  let size : Int := (toString significand).length + places
  let limit := Nat.pow 2 1024 - Nat.pow 2 970
  if number.negative || significand = 0 || size < 300 then false
  else if size > 310 then true
  else if places ≥ 0 then significand * Nat.pow 10 places.toNat ≥ limit
  else significand ≥ limit * Nat.pow 10 (-places).toNat

/-- The digits after a point. -/
def fraction? : List Char → Option (Option (List Char) × List Char)
  | '.' :: rest => (digits? Char.isDigit rest).map fun (digits, rest) => (some digits, rest)
  | rest => some (none, rest)

/-- The exponent of a number. -/
def exponent? (chars : List Char) : Option (Option Int × List Char) :=
  match chars with
  | c :: rest =>
    if c = 'e' ∨ c = 'E' then
      let (negative, rest) := sign rest
      (digits? Char.isDigit rest).map fun (digits, rest) =>
        let size : Int := numberOf 10 digits
        (some (if negative then -size else size), rest)
    else some (none, chars)
  | [] => some (none, [])

def decimal? (chars : List Char) : Option (Toml × List Char) := do
  let (negative, rest) := sign chars
  let (whole, rest) ← whole? rest
  let (fraction, rest) ← fraction? rest
  let (exponent, rest) ← exponent? rest
  if fraction.isNone ∧ exponent.isNone then
    let size : Int := numberOf 10 whole
    let value ← integer? (if negative then -size else size)
    pure (value, rest)
  else
    let number : Decimal := ⟨negative, whole, fraction.getD [], exponent.getD 0⟩
    if number.isTooLarge then none else pure (.float, rest)

/-- Infinity or an undefined number, with or without a sign. -/
def special? (chars : List Char) : Option (Toml × List Char) :=
  match (sign chars).2 with
  | 'i' :: 'n' :: 'f' :: rest => some (.float, rest)
  | 'n' :: 'a' :: 'n' :: rest => some (.float, rest)
  | _ => none

/-- The number of exactly so many digits at the front of a text. -/
def fixed? (digits : Nat) (chars : List Char) : Option (Nat × List Char) :=
  let front := chars.take digits
  if front.length = digits ∧ front.all Char.isDigit then
    some (numberOf 10 front, chars.drop digits)
  else none

/-- Passes over a given character. -/
def char? (c : Char) : List Char → Option (List Char)
  | first :: rest => if first = c then some rest else none
  | [] => none

/-- Whether a year has a leap day. -/
def isLeapYear (year : Nat) : Bool := year % 4 = 0 && (year % 100 ≠ 0 || year % 400 = 0)

/-- The number of days of a month. -/
def daysIn (year month : Nat) : Nat :=
  if month = 2 then (if isLeapYear year then 29 else 28)
  else if month ∈ [4, 6, 9, 11] then 30
  else 31

/-- Passes over a date. -/
def date? (chars : List Char) : Option (List Char) := do
  let (year, rest) ← fixed? 4 chars
  let rest ← char? '-' rest
  let (month, rest) ← fixed? 2 rest
  let rest ← char? '-' rest
  let (day, rest) ← fixed? 2 rest
  if 1 ≤ month ∧ month ≤ 12 ∧ 1 ≤ day ∧ day ≤ daysIn year month then pure rest else none

/-- Passes over hours and minutes. -/
def hoursAndMinutes? (chars : List Char) : Option (List Char) := do
  let (hour, rest) ← fixed? 2 chars
  let rest ← char? ':' rest
  let (minute, rest) ← fixed? 2 rest
  if hour ≤ 23 ∧ minute ≤ 59 then pure rest else none

/-- Passes over a time of day. -/
def time? (chars : List Char) : Option (List Char) := do
  let rest ← hoursAndMinutes? chars
  let rest ← char? ':' rest
  let (second, rest) ← fixed? 2 rest
  if second > 60 then none
  else
    match rest with
    | '.' :: more =>
      match more with
      | c :: _ => if c.isDigit then pure (more.dropWhile Char.isDigit) else none
      | [] => none
    | rest => pure rest

/-- Passes over what tells a time's distance from universal time, if there is anything. -/
def offset? (chars : List Char) : Option (List Char) :=
  match chars with
  | c :: rest =>
    if c = 'Z' ∨ c = 'z' then some rest
    else if c = '+' ∨ c = '-' then hoursAndMinutes? rest
    else some chars
  | [] => some []

/-- Whether a text starts with the beginning of a date. -/
def startsDate (chars : List Char) : Bool :=
  (fixed? 4 chars).any fun (_, rest) => rest.head? == some '-'

/-- Whether a text starts with the beginning of a time of day. -/
def startsTime (chars : List Char) : Bool :=
  (fixed? 2 chars).any fun (_, rest) => rest.head? == some ':'

/-- A date, a time, or both. -/
def dateTime? (chars : List Char) : Option (Toml × List Char) :=
  if startsTime chars then (time? chars).map fun rest => (.date, rest)
  else do
    let rest ← date? chars
    match rest with
    | c :: more =>
      if c = 'T' ∨ c = 't' ∨ (c = ' ' ∧ startsTime more) then
        let rest ← time? more
        let rest ← offset? rest
        pure (.date, rest)
      else pure (.date, rest)
    | [] => pure (.date, [])

def scalar? (chars : List Char) : Option (Toml × List Char) :=
  if startsDate chars || startsTime chars then dateTime? chars
  else
    match chars with
    | '0' :: 'x' :: rest => based? 16 (fun c => (hexDigit? c).isSome) rest
    | '0' :: 'o' :: rest => based? 8 (fun c => '0' ≤ c && c ≤ '7') rest
    | '0' :: 'b' :: rest => based? 2 (fun c => c == '0' || c == '1') rest
    | chars =>
      match special? chars with
      | some found => some found
      | none => decimal? chars

end CallGraph.Toml
