/-!
Double-precision numbers as bit patterns, with exact rounding.

A number is kept as its 64 bits, so equality of numbers is equality of patterns and every
operation below is arithmetic on `Nat`. `Double.ofRatio` rounds a quotient of naturals to the
nearest double, ties to the even significand; multiplication and division of magnitudes are the
exact product and quotient rounded once.
-/

set_option autoImplicit false

namespace ComponentHost

/-- A double-precision number, by its bit pattern. -/
structure Double where
  bits : UInt64
  deriving DecidableEq, Repr

namespace Double

instance : Inhabited Double := ⟨⟨0⟩⟩

/-- The sign bit. -/
def negative (d : Double) : Bool := d.bits >>> 63 == 1

/-- The exponent field, biased by 1023. -/
def exponentField (d : Double) : Nat := ((d.bits >>> 52) &&& 0x7ff).toNat

/-- The 52 stored bits of the significand. -/
def fraction (d : Double) : Nat := (d.bits &&& 0xfffffffffffff).toNat

def isZero (d : Double) : Bool := d.bits <<< 1 == 0

def isInfinite (d : Double) : Bool := d.exponentField == 0x7ff

/-- A finite number has magnitude `significand * 2 ^ (exponent - 1074)`, both naturals. -/
def significand (d : Double) : Nat :=
  if d.exponentField = 0 then d.fraction else d.fraction + Nat.pow 2 52

def exponent (d : Double) : Nat := d.exponentField - 1

def zero : Double := ⟨0⟩

def infinity : Double := ⟨0x7ff0000000000000⟩

def neg (d : Double) : Double := ⟨d.bits ^^^ 0x8000000000000000⟩

/-- `n / d` rounded to the nearest natural, a half going to the even one. -/
def roundDiv (n d : Nat) : Nat :=
  let q := n / d
  let twice := 2 * (n % d)
  if twice > d || (twice == d && q % 2 == 1) then q + 1 else q

/-- The positive number nearest to `significand * 2 ^ (exponent - 1074)`, for a significand below
`2 ^ 53`, or `2 ^ 53` itself where rounding carried. -/
def assemble (significand exponent : Nat) : Double :=
  let (significand, exponent) :=
    if significand = Nat.pow 2 53 then (Nat.pow 2 52, exponent + 1) else (significand, exponent)
  if significand < Nat.pow 2 52 then ⟨significand.toUInt64⟩
  else if exponent + 1 ≥ 0x7ff then infinity
  else ⟨((exponent + 1) * Nat.pow 2 52 + (significand - Nat.pow 2 52)).toUInt64⟩

/-- The double nearest to `n / d`, ties to even; beyond the largest it is infinite. -/
def ofRatio (n d : Nat) : Double :=
  if n = 0 then zero
  else
    -- the quotient times 2 ^ 1074 lies in [2 ^ k, 2 ^ (k + 2))
    let k := (n.log2 + 1074) - d.log2 - 1
    let lift (e : Nat) : Nat := roundDiv (n * Nat.pow 2 1074) (d * Nat.pow 2 e)
    let e := k - 52
    -- one binade too low leaves more than 53 bits before rounding
    let e := if n * Nat.pow 2 1074 / (d * Nat.pow 2 e) ≥ Nat.pow 2 53 then e + 1 else e
    assemble (lift e) e

def ofNat (n : Nat) : Double := ofRatio n 1

/-- Numerator and denominator of the magnitude. -/
def ratio (d : Double) : Nat × Nat := (d.significand * Nat.pow 2 d.exponent, Nat.pow 2 1074)

/-- Product of two magnitudes, rounded once. -/
def mul (a b : Double) : Double :=
  if a.isInfinite || b.isInfinite then infinity
  else ofRatio (a.ratio.1 * b.ratio.1) (a.ratio.2 * b.ratio.2)

/-- Quotient of two magnitudes, rounded once. -/
def div (a b : Double) : Double :=
  if a.isInfinite || b.isZero then infinity
  else ofRatio (a.ratio.1 * b.ratio.2) (a.ratio.2 * b.ratio.1)

end Double

end ComponentHost
