import ComponentHost.Time.Timestamp

/-!
Timestamps as text, after RFC 3339.

Writing uses UTC, the letter `Z`, and the fewest of 0, 3, 6 or 9 fraction digits that are exact.
Reading is more liberal: any offset, a blank for the letter `T`, blanks around the parts, one digit
where two are usual, and a sign before the year, which may then have any number of digits.
-/

set_option autoImplicit false

namespace ComponentHost

/-- Why a text is not a timestamp. -/
inductive TimeError where
  | outOfRange
  | impossible
  | invalid
  | tooShort
  | tooLong
  deriving DecidableEq, Repr

def TimeError.message : TimeError → String
  | .outOfRange => "input is out of range"
  | .impossible => "no possible date and time matching input"
  | .invalid => "input contains invalid characters"
  | .tooShort => "premature end of input"
  | .tooLong => "trailing input"

namespace Rfc3339

/-- A decimal of at least `width` digits. -/
def padded (width n : Nat) : List Char :=
  let ds := Nat.toDigits 10 n
  List.replicate (width - ds.length) '0' ++ ds

def yearText (year : Int) : List Char :=
  if 0 ≤ year ∧ year ≤ 9999 then padded 4 year.toNat
  else (if year < 0 then '-' else '+') :: padded 4 year.natAbs

def fractionText (nanos : Nat) : List Char :=
  if nanos = 0 then []
  else if nanos % 1000000 = 0 then '.' :: padded 3 (nanos / 1000000)
  else if nanos % 1000 = 0 then '.' :: padded 6 (nanos / 1000)
  else '.' :: padded 9 nanos

def chars (t : Timestamp) : List Char :=
  yearText t.date.year ++ '-' :: padded 2 t.date.month ++ '-' :: padded 2 t.date.day
    ++ 'T' :: padded 2 t.clock.hour ++ ':' :: padded 2 t.clock.minute
    ++ ':' :: padded 2 t.clock.second ++ fractionText t.clock.nanos ++ ['Z']

def text (t : Timestamp) : String := String.ofList (chars t)

/-! Reading. -/

abbrev Reader (α : Type) := List Char → Except TimeError (α × List Char)

/-- The blanks of Unicode. -/
def isBlank (c : Char) : Bool :=
  c == ' ' || ('\t' ≤ c && c ≤ '\r') || c == '\x85' || c == '\u00a0' || c == '\u1680'
    || ('\u2000' ≤ c && c ≤ '\u200a') || c == '\u2028' || c == '\u2029' || c == '\u202f'
    || c == '\u205f' || c == '\u3000'

def trim (s : List Char) : List Char := s.dropWhile isBlank

def valueOf (digits : List Char) : Nat := digits.foldl (fun n c ↦ n * 10 + (c.toNat - 48)) 0

/-- Between one digit and `most` of them. -/
def number (most : Nat) : Reader Nat := fun s ↦
  let ds := (s.take most).takeWhile Char.isDigit
  if s.isEmpty then .error .tooShort
  else if ds.isEmpty then .error .invalid
  else if valueOf ds ≥ 0x8000000000000000 then .error .outOfRange
  else .ok (valueOf ds, s.drop ds.length)

def year : Reader Int := fun s ↦
  let signed (sign : Int) (s : List Char) : Except TimeError (Int × List Char) := do
    let (n, rest) ← number s.length s
    if sign * n < -0x80000000 ∨ 0x80000000 ≤ sign * n then throw .outOfRange
    return (sign * n, rest)
  match trim s with
  | '-' :: rest => signed (-1) rest
  | '+' :: rest => signed 1 rest
  | s => do
    let (n, rest) ← number 4 s
    return ((n : Int), rest)

/-- One or two digits between `least` and `most`, after blanks. -/
def pair (least most : Nat) : Reader Nat := fun s ↦ do
  let (n, rest) ← number 2 (trim s)
  if n < least ∨ most < n then throw .outOfRange
  return (n, rest)

/-- Blanks and a separator. -/
def separator (c : Char) (s : List Char) : Except TimeError (List Char) :=
  match trim s with
  | [] => .error .tooShort
  | d :: rest => if d = c then .ok rest else .error .invalid

/-- An optional fraction of a second; digits after the ninth are dropped. -/
def nanos : Reader Nat
  | '.' :: rest => do
    let (_, after) ← number 9 rest
    let ds := rest.take (rest.length - after.length)
    return (valueOf ds * Nat.pow 10 (9 - ds.length), after.dropWhile Char.isDigit)
  | s => .ok (0, s)

def twoDigits (s : List Char) : Except TimeError (Nat × List Char) :=
  match s with
  | a :: b :: rest =>
    if a.isDigit && b.isDigit then .ok ((a.toNat - 48) * 10 + (b.toNat - 48), rest)
    else .error .invalid
  | [a] => .error (if a.toNat < 128 then .tooShort else .invalid)
  | [] => .error .tooShort

/-- An offset from UTC, in minutes. -/
def offset (s : List Char) : Except TimeError (Int × List Char) :=
  let signed (sign : Int) (s : List Char) : Except TimeError (Int × List Char) := do
    let (hours, rest) ← twoDigits s
    let (minutes, rest) ← twoDigits (rest.dropWhile fun c ↦ c == ':' || isBlank c)
    if minutes ≥ 60 then throw .outOfRange
    return (sign * (hours * 60 + minutes : Nat), rest)
  match s with
  | [] => .error .tooShort
  | c :: rest =>
    if c = 'Z' || c = 'z' then .ok (0, rest)
    else if c = '+' then signed 1 rest
    else if c = '-' || c = '\u2212' then signed (-1) rest
    else if ((s.take 3).map Char.toUpper) = ['U', 'T', 'C'] then .ok (0, s.drop 3)
    else .error .invalid

/-- Reads a whole text. -/
def parse (text : String) : Except TimeError Timestamp := do
  let (year, s) ← year text.toList
  let s ← separator '-' s
  let (month, s) ← pair 1 12 s
  let s ← separator '-' s
  let (day, s) ← pair 1 31 s
  let s ← match s with
    | [] => throw .tooShort
    | c :: rest => if c = 'T' || c = 't' || c = ' ' then pure rest else throw .invalid
  let (hour, s) ← pair 0 23 s
  let s ← separator ':' s
  let (minute, s) ← pair 0 59 s
  let s ← separator ':' s
  let (second, s) ← pair 0 60 s
  let (nanos, s) ← nanos s
  let (minutes, s) ← offset (trim s)
  if !(trim s).isEmpty then throw .tooLong
  match Date.ofParts? year month day, Clock.ofParts? hour minute second nanos with
  | some date, some clock =>
    if minutes.natAbs ≥ 1440 then throw .outOfRange
    match Timestamp.ofLocal? date clock minutes with
    | some t => return t
    | none => throw .impossible
  | _, _ => throw .outOfRange

end Rfc3339

/-- Timestamps are written as text. -/
def Timestamp.codec : Codec Timestamp where
  encode t := .str (Rfc3339.text t)
  decode
    | .str s => (Rfc3339.parse s).mapError fun e ↦ .malformed e.message
    | v => .error (.mismatch v "an RFC 3339 formatted date and time string")

end ComponentHost
