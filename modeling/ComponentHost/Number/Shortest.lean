import ComponentHost.Number.Double

/-!
The shortest decimal that reads back as a given double, and the two notations it is written in.

`Double.shortest` looks for the coarsest decimal grid with a point in the interval of reals that
round to the number, and takes the point nearest to it. `Double.text` writes that decimal in
positional notation for decimal exponents from -5 to 15 and in scientific notation otherwise.
-/

set_option autoImplicit false

namespace ComponentHost

/-- The decimal `digits * 10 ^ exponent`. -/
structure Decimal where
  digits : Nat
  exponent : Int
  deriving DecidableEq, Repr

namespace Double

/-- The interval of reals that round to a double, over a common denominator. -/
structure Interval where
  low : Nat
  mid : Nat
  high : Nat
  denominator : Nat
  /-- The ends belong to the interval. -/
  closed : Bool

/-- Below a power of two the gap to the neighbour is half as wide. -/
def interval (d : Double) : Interval :=
  let m := d.significand
  let scale := Nat.pow 2 d.exponent
  let below := if d.fraction = 0 && d.exponentField > 1 then 1 else 2
  { low := (4 * m - below) * scale
    mid := 4 * m * scale
    high := (4 * m + 2) * scale
    denominator := 4 * Nat.pow 2 1074
    closed := m % 2 == 0 }

/-- Does `digits * 10 ^ exponent` round to the number? -/
def Interval.holds (i : Interval) (x : Decimal) : Bool :=
  let (n, d) :=
    if x.exponent ≥ 0 then (x.digits * Nat.pow 10 x.exponent.toNat * i.denominator, 1)
    else (x.digits * i.denominator, Nat.pow 10 (-x.exponent).toNat)
  if i.closed then i.low * d ≤ n && n ≤ i.high * d else i.low * d < n && n < i.high * d

/-- The grid points next to the number: the largest not above it, and the one after. -/
def Interval.floor (i : Interval) (exponent : Int) : Nat :=
  if exponent ≥ 0 then i.mid / (i.denominator * Nat.pow 10 exponent.toNat)
  else i.mid * Nat.pow 10 (-exponent).toNat / i.denominator

/-- Is the number past the middle between `digits` and its successor? A tie goes to the even. -/
def Interval.above (i : Interval) (digits : Nat) (exponent : Int) : Bool :=
  let (n, d) :=
    if exponent ≥ 0 then (i.mid, i.denominator * Nat.pow 10 exponent.toNat)
    else (i.mid * Nat.pow 10 (-exponent).toNat, i.denominator)
  let twice := 2 * n
  let middle := (2 * digits + 1) * d
  twice > middle || (twice == middle && digits % 2 == 1)

/-- The grid point of one exponent that rounds to the number, if there is one. -/
def Interval.onGrid (i : Interval) (exponent : Int) : Option Decimal :=
  let lower := i.floor exponent
  let first := if i.above lower exponent then lower + 1 else lower
  let second := if i.above lower exponent then lower else lower + 1
  if i.holds ⟨first, exponent⟩ then some ⟨first, exponent⟩
  else if i.holds ⟨second, exponent⟩ then some ⟨second, exponent⟩
  else none

/-- Finer and finer grids, `steps` of them; seventeen digits always suffice. -/
def Interval.search (i : Interval) : Nat → Int → Decimal
  | 0, exponent => ⟨i.floor exponent, exponent⟩
  | steps + 1, exponent =>
    match i.onGrid exponent with
    | some x => x
    | none => i.search steps (exponent - 1)

/-- Number of decimal digits; zero has one. -/
def digitCount (n : Nat) : Nat := (Nat.toDigits 10 n).length

/-- Trailing zeros of the digits move into the exponent. -/
def stripZeros : Nat → Decimal → Decimal
  | 0, x => x
  | fuel + 1, x =>
    if x.digits % 10 = 0 && x.digits ≠ 0 then stripZeros fuel ⟨x.digits / 10, x.exponent + 1⟩ else x

/-- The decimal exponent of the leading digit, by the digits of the integer part or of the
reciprocal. -/
def Interval.leading (i : Interval) : Int :=
  if i.mid ≥ i.denominator then (digitCount (i.mid / i.denominator) : Int) - 1
  else
    -- 10 ^ (k - 1) < r ≤ 10 ^ k puts the number in [10 ^ -k, 10 ^ (1 - k))
    let r := (i.denominator + i.mid - 1) / i.mid
    Int.neg (digitCount (r - 1))

/-- The shortest decimal that reads back as the magnitude of a finite number other than zero. -/
def shortest (d : Double) : Decimal :=
  let i := d.interval
  stripZeros 20 (i.search 17 i.leading)

def digitsText (n : Nat) : String := String.ofList (Nat.toDigits 10 n)

def zeros (n : Nat) : String := String.ofList (List.replicate n '0')

/-- Positional notation; a number without a fraction keeps `point` after its digits. -/
def Decimal.positional (x : Decimal) (point : String) : String :=
  let text := digitsText x.digits
  if x.exponent ≥ 0 then text ++ zeros x.exponent.toNat ++ point
  else
    let places := (-x.exponent).toNat
    if text.length > places then
      String.ofList (text.toList.take (text.length - places)) ++ "."
        ++ String.ofList (text.toList.drop (text.length - places))
    else "0." ++ zeros (places - text.length) ++ text

/-- Scientific notation, the exponent always signed, as in `1.5e-7` and `1e+16`. -/
def Decimal.scientific (x : Decimal) : String :=
  let text := digitsText x.digits
  let exponent := x.exponent + (text.length : Int) - 1
  let mantissa :=
    if text.length = 1 then text
    else String.ofList (text.toList.take 1) ++ "." ++ String.ofList (text.toList.drop 1)
  mantissa ++ (if exponent < 0 then "e" else "e+") ++ toString exponent

def signed (d : Double) (text : String) : String := if d.negative then "-" ++ text else text

/-- Positional from `1e-5` up to below `1e16`, scientific elsewhere; always with a point or an
exponent. -/
def text (d : Double) : String :=
  if d.isZero then d.signed "0.0"
  else
    let x := d.shortest
    let leading := x.exponent + (digitCount x.digits : Int)
    d.signed
      (if -5 < leading && leading ≤ 16 then Decimal.positional x ".0" else Decimal.scientific x)

end Double

end ComponentHost
