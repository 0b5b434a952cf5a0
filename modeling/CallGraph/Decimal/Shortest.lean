/-!
# Shortest decimals

The shortest decimal that reads back as a given binary floating-point number, and the nearest of
those. A number `m * 2 ^ q` owns the interval of reals that round to it; the search looks for the
coarsest decimal grid with a point in that interval.
-/
namespace CallGraph.Decimal

structure Ratio where
  num : Nat
  den : Nat
deriving Repr, Inhabited

/-- `m * 2 ^ e`. -/
def Ratio.ofBinary (m : Nat) (e : Int) : Ratio :=
  match e with
  | .ofNat n => ⟨m * Nat.pow 2 n, 1⟩
  | .negSucc n => ⟨m, Nat.pow 2 (n + 1)⟩

/-- `m * 10 ^ e`. -/
def Ratio.ofDecimal (m : Nat) (e : Int) : Ratio :=
  match e with
  | .ofNat n => ⟨m * Nat.pow 10 n, 1⟩
  | .negSucc n => ⟨m, Nat.pow 10 (n + 1)⟩

def Ratio.le (a b : Ratio) : Bool := a.num * b.den ≤ b.num * a.den
def Ratio.lt (a b : Ratio) : Bool := a.num * b.den < b.num * a.den

/-- `a / 10 ^ e`, rounded down. -/
def Ratio.gridFloor (a : Ratio) (e : Int) : Nat :=
  match e with
  | .ofNat n => a.num / (a.den * Nat.pow 10 n)
  | .negSucc n => a.num * Nat.pow 10 (n + 1) / a.den

/-- A positive binary floating-point number and the interval of reals that round to it. -/
structure Binary where
  value : Ratio
  low : Ratio
  high : Ratio
  /-- Whether the ends of the interval belong to it. -/
  closed : Bool

/-- The number `m * 2 ^ q`; below a power of two the numbers lie twice as close. -/
def Binary.of (m : Nat) (q : Int) (atPower : Bool) : Binary where
  value := .ofBinary m q
  low := if atPower then .ofBinary (4 * m - 1) (q - 2) else .ofBinary (2 * m - 1) (q - 1)
  high := .ofBinary (2 * m + 1) (q - 1)
  closed := m % 2 == 0

/-- Whether a decimal reads back as the number. -/
def Binary.owns (x : Binary) (a : Ratio) : Bool :=
  if x.closed then x.low.le a && a.le x.high else x.low.lt a && a.lt x.high

/-- The digits and the exponent of a decimal: `digits * 10 ^ exponent`. -/
structure Digits where
  digits : Nat
  exponent : Int
deriving Repr, Inhabited

/-- The point of a decimal grid next to a number that reads back as it, the nearer of two. -/
def Binary.onGrid? (x : Binary) (e : Int) : Option Digits :=
  let below := x.value.gridFloor e
  let above := below + 1
  -- Twice the number is compared with twice the middle between the two points.
  let half := Ratio.ofDecimal (2 * below + 1) e
  let nearer := x.value.num * 2 * half.den ≤ half.num * x.value.den
  let first := if nearer then below else above
  let second := if nearer then above else below
  if first ≠ 0 && x.owns (.ofDecimal first e) then some ⟨first, e⟩
  else if second ≠ 0 && x.owns (.ofDecimal second e) then some ⟨second, e⟩
  else none

/-- The coarsest of the grids with exponents `start`, `start - 1`, … that has a hit. -/
def Binary.search (x : Binary) : Nat → Int → Digits
  | 0, e => ⟨x.value.gridFloor e, e⟩
  | steps + 1, e =>
    match x.onGrid? e with
    | some found => found
    | none => x.search steps (e - 1)

/-- The sign of a number, and its shortest decimal if it is finite and not zero. -/
def ofFloat (x : Float) : Bool × Option Digits :=
  let bits := x.toBits.toNat
  let negative := bits / Nat.pow 2 63 == 1
  let exponent : Nat := bits / Nat.pow 2 52 % Nat.pow 2 11
  let fraction : Nat := bits % Nat.pow 2 52
  if exponent == 0 && fraction == 0 then (negative, none)
  else
    let m := if exponent == 0 then fraction else fraction + Nat.pow 2 52
    let q : Int := Int.ofNat (max exponent 1) - 1075
    let binary := Binary.of m q (fraction == 0 && exponent > 1)
    (negative, some (binary.search 800 310))

def digitChars (n : Nat) : List Char := (toString n).toList

/-- The exponent of a decimal with a single digit before the point. -/
def Digits.magnitude (decimal : Digits) : Int :=
  decimal.exponent + (digitChars decimal.digits).length - 1

/-- Digits without an exponent, with a point even if nothing follows it but a zero. -/
def positional (decimal : Digits) : String :=
  let digits := digitChars decimal.digits
  match decimal.exponent with
  | .ofNat n => String.ofList (digits ++ List.replicate n '0' ++ ".0".toList)
  | .negSucc n =>
    let places := n + 1
    let padded := List.replicate (places + 1 - digits.length) '0' ++ digits
    let split := padded.length - places
    String.ofList (padded.take split ++ '.' :: padded.drop split)

/-- One digit, the others after a point, and an exponent that always has a sign. -/
def scientific (decimal : Digits) : String :=
  let significand := match digitChars decimal.digits with
    | first :: second :: others => first :: '.' :: second :: others
    | digits => digits
  let sign := if decimal.magnitude < 0 then "-" else "+"
  String.ofList significand ++ "e" ++ sign ++ toString decimal.magnitude.natAbs

/-- The magnitudes that are written without an exponent. -/
def isPositional (magnitude : Int) : Bool := -5 ≤ magnitude && magnitude < 16

/-- A finite number as the shortest decimal that reads back as it. -/
def render (x : Float) : String :=
  let (negative, decimal?) := ofFloat x
  (if negative then "-" else "") ++
    match decimal? with
    | some decimal =>
      if isPositional decimal.magnitude then positional decimal else scientific decimal
    | none => "0.0"

end CallGraph.Decimal
