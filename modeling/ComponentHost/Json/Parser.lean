import ComponentHost.Json.Basic

/-!
Reading JSON text.

A number without point and exponent that fits 64 bits is an integer; minus zero and everything
else is a double. A double is read the quick way: the significand, cut where it would pass
`2 ^ 64 - 1`, is rounded once and then multiplied or divided by a power of ten that is itself
rounded, so the last bit of a long number can differ from the nearest double. A number beyond the
largest double is refused, and so is nesting of 128 levels.
-/

set_option autoImplicit false

namespace ComponentHost

namespace Json

/-- What is left to read. -/
abbrev Rest := List Char

def skipBlanks (s : Rest) : Rest :=
  s.dropWhile fun c ↦ c = ' ' || c = '\n' || c = '\t' || c = '\r'

def digit? (c : Char) : Option Nat := if c.isDigit then some (c.toNat - 48) else none

def hexValue? (c : Char) : Option Nat :=
  if c.isDigit then some (c.toNat - 48)
  else if 'a' ≤ c ∧ c ≤ 'f' then some (c.toNat - 87)
  else if 'A' ≤ c ∧ c ≤ 'F' then some (c.toNat - 55)
  else none

/-- Four hexadecimal digits. -/
def hexQuad? : Rest → Option (Nat × Rest)
  | a :: b :: c :: d :: rest => do
    let a ← hexValue? a
    let b ← hexValue? b
    let c ← hexValue? c
    let d ← hexValue? d
    return (((a * 16 + b) * 16 + c) * 16 + d, rest)
  | _ => none

/-- The character after a backslash, a pair of surrogates being one character. -/
def escaped? : Rest → Option (Char × Rest)
  | '"' :: rest => some ('"', rest)
  | '\\' :: rest => some ('\\', rest)
  | '/' :: rest => some ('/', rest)
  | 'b' :: rest => some ('\x08', rest)
  | 'f' :: rest => some ('\x0c', rest)
  | 'n' :: rest => some ('\n', rest)
  | 'r' :: rest => some ('\r', rest)
  | 't' :: rest => some ('\t', rest)
  | 'u' :: rest => do
    let (high, rest) ← hexQuad? rest
    if 0xd800 ≤ high ∧ high < 0xdc00 then
      match rest with
      | '\\' :: 'u' :: rest => do
        let (low, rest) ← hexQuad? rest
        if 0xdc00 ≤ low ∧ low < 0xe000 then
          return (Char.ofNat (0x10000 + (high - 0xd800) * 0x400 + (low - 0xdc00)), rest)
        else none
      | _ => none
    else if 0xdc00 ≤ high ∧ high < 0xe000 then none
    else return (Char.ofNat high, rest)
  | _ => none

/-- The rest of a string after its opening quote. -/
def string? : Nat → Rest → String → Option (String × Rest)
  | 0, _, _ => none
  | _, [], _ => none
  | _ + 1, '"' :: rest, acc => some (acc, rest)
  | fuel + 1, '\\' :: rest, acc => do
    let (c, rest) ← escaped? rest
    string? fuel rest (acc.push c)
  | fuel + 1, c :: rest, acc => if c.toNat < 0x20 then none else string? fuel rest (acc.push c)

def maxSignificand : Nat := 0xffffffffffffffff

/-- Digits that still fit the significand, with their number. -/
def digits : Rest → Nat → Nat → Nat × Nat × Rest
  | [], significand, count => (significand, count, [])
  | c :: rest, significand, count =>
    match digit? c with
    | some d =>
      if significand * 10 + d > maxSignificand then (significand, count, c :: rest)
      else digits rest (significand * 10 + d) (count + 1)
    | none => (significand, count, c :: rest)

/-- Further digits, only counted. -/
def skipDigits : Rest → Nat → Nat × Rest
  | [], count => (count, [])
  | c :: rest, count => if c.isDigit then skipDigits rest (count + 1) else (count, c :: rest)

/-- Scales a rounded significand by powers of ten no larger than `10 ^ 308`. -/
def scale : Nat → Double → Int → Option Double
  | 0, _, _ => none
  | fuel + 1, f, exponent =>
    if exponent.natAbs ≤ 308 then
      let power := Double.ofNat (Nat.pow 10 exponent.natAbs)
      if exponent ≥ 0 then
        let product := f.mul power
        if product.isInfinite then none else some product
      else some (f.div power)
    else if f.isZero then some f
    else if exponent ≥ 0 then none
    else scale fuel (f.div (Double.ofNat (Nat.pow 10 308))) (exponent + 308)

def double? (negative : Bool) (significand : Nat) (exponent : Int) : Option Number :=
  (scale 12 (Double.ofNat significand) (max (-3000) exponent)).map fun f ↦
    .float (if negative then f.neg else f)

/-- An optional exponent and the number it completes. -/
def exponent? (negative : Bool) (significand : Nat) (start : Int) : Rest → Option (Number × Rest)
  | [] => (double? negative significand start).map (·, [])
  | e :: rest =>
    if e = 'e' || e = 'E' then do
      let (down, rest) := match rest with
        | '+' :: rest => (false, rest)
        | '-' :: rest => (true, rest)
        | rest => (false, rest)
      let (count, after) := skipDigits rest 0
      if count = 0 then none
      else
        let value : Nat := (rest.take count).foldl (fun n c ↦ n * 10 + (c.toNat - 48)) 0
        if value > 0x7fffffff then
          if significand ≠ 0 && !down then none
          else some (.float (if negative then Double.zero.neg else Double.zero), after)
        else
          let scale : Int := if down then start - value else start + value
          let n ← double? negative significand scale
          return (n, after)
    else (double? negative significand start).map (·, e :: rest)

/-- What follows the integer digits: a fraction, an exponent, or nothing. -/
def fraction? (negative : Bool) (significand : Nat) (start : Int) (whole : Bool) (rest : Rest) :
    Option (Number × Rest) :=
  match rest with
  | '.' :: rest =>
    let (significand', count, rest') := digits rest significand 0
    let (more, rest') := skipDigits rest' 0
    if count = 0 && more = 0 then none
    -- a first digit that no longer fits is dropped with the others
    else exponent? negative significand' (start - (count : Int)) rest'
  | _ =>
    match rest with
    | 'e' :: _ | 'E' :: _ => exponent? negative significand start rest
    | _ =>
      if !whole then exponent? negative significand start rest
      else if !negative then some (.int significand, rest)
      else if significand = 0 || significand > 0x8000000000000000 then
        some (.float (Double.ofNat significand).neg, rest)
      else some (.int (-(significand : Int)), rest)

def number? (negative : Bool) : Rest → Option (Number × Rest)
  | '0' :: rest =>
    match rest with
    | c :: _ => if c.isDigit then none else fraction? negative 0 0 true rest
    | [] => fraction? negative 0 0 true rest
  | c :: rest =>
    if c.isDigit then
      let (significand, _, rest) := digits (c :: rest) 0 0
      let (more, rest) := skipDigits rest 0
      fraction? negative significand more (more == 0) rest
    else none
  | [] => none

mutual

/-- A value; `depth` counts how many levels may still open. -/
def value? : Nat → Nat → Rest → Option (Json × Rest)
  | 0, _, _ => none
  | fuel + 1, depth, s =>
    match skipBlanks s with
    | 'n' :: 'u' :: 'l' :: 'l' :: rest => some (.null, rest)
    | 't' :: 'r' :: 'u' :: 'e' :: rest => some (.bool true, rest)
    | 'f' :: 'a' :: 'l' :: 's' :: 'e' :: rest => some (.bool false, rest)
    | '"' :: rest => (string? (rest.length + 1) rest "").map fun (t, rest) ↦ (.str t, rest)
    | '-' :: rest => (number? true rest).map fun (n, rest) ↦ (.num n, rest)
    | '[' :: rest =>
      match depth with
      | 0 => none
      | depth + 1 =>
        match skipBlanks rest with
        | ']' :: rest => some (.arr [], rest)
        | rest => (items? fuel depth rest []).map fun (xs, rest) ↦ (.arr xs, rest)
    | '\x7b' :: rest =>
      match depth with
      | 0 => none
      | depth + 1 =>
        match skipBlanks rest with
        | '\x7d' :: rest => some (.obj [], rest)
        | rest => (entries? fuel depth rest []).map fun (es, rest) ↦ (.obj es, rest)
    | rest => (number? false rest).map fun (n, rest) ↦ (.num n, rest)

/-- The items of an array after its bracket; `acc` holds those read, last first. -/
def items? : Nat → Nat → Rest → List Json → Option (List Json × Rest)
  | 0, _, _, _ => none
  | fuel + 1, depth, s, acc => do
    let (x, rest) ← value? fuel depth s
    match skipBlanks rest with
    | ',' :: rest => items? fuel depth rest (x :: acc)
    | ']' :: rest => return ((x :: acc).reverse, rest)
    | _ => none

/-- The entries of an object after its brace. -/
def entries? : Nat → Nat → Rest → Entries → Option (Entries × Rest)
  | 0, _, _, _ => none
  | fuel + 1, depth, s, acc =>
    match skipBlanks s with
    | '"' :: rest => do
      let (key, rest) ← string? (rest.length + 1) rest ""
      match skipBlanks rest with
      | ':' :: rest =>
        let (x, rest) ← value? fuel depth rest
        match skipBlanks rest with
        | ',' :: rest => entries? fuel depth rest (Entries.insert key x acc)
        | '\x7d' :: rest => return (Entries.insert key x acc, rest)
        | _ => none
      | _ => none
    | _ => none

end

/-- The value a whole text stands for. -/
def parse? (text : String) : Option Json :=
  let s := text.toList
  match value? (2 * s.length + 1) 127 s with
  | some (v, rest) => if (skipBlanks rest).isEmpty then some v else none
  | none => none

end Json

end ComponentHost
