import ComponentHost.Identifier
import ComponentHost.Json.Basic
import ComponentHost.Time.Instant

/-!
Looking up the fields of a request, with what stands for a field that is missing or of another
kind.
-/

set_option autoImplicit false

namespace ComponentHost

namespace Json

/-- A value under a key, `null` if there is none. -/
def field (v : Json) (key : String) : Json := (v.get? key).getD .null

/-- A text under a key. -/
def text? (v : Json) (key : String) : Option String := (v.get? key).bind str?

/-- A text under a key, empty if there is none. -/
def text (v : Json) (key : String) : String := (v.text? key).getD ""

/-- The items of a list under a key, none if there is no list. -/
def items (v : Json) (key : String) : List Json := ((v.get? key).bind arr?).getD []

def entries (v : Json) (key : String) : Entries := ((v.get? key).bind obj?).getD []

def int? : Json → Option Int
  | .num (.int n) => some n
  | _ => none

def nat? : Json → Option Nat
  | .num (.int n) => if 0 ≤ n then some n.toNat else none
  | _ => none

def bool? : Json → Option Bool
  | .bool b => some b
  | _ => none

/-- Seconds, which have to fit 64 bits, and nanoseconds, which may be missing. -/
def secondsAndNanos? (v : Json) : Option (Int × Nat) := do
  let seconds ← (v.get? "secs").bind int?
  if seconds < -0x8000000000000000 || 0x8000000000000000 ≤ seconds then none
  else
    match v.get? "nanos" with
    | none => return (seconds, 0)
    | some n => return (seconds, ← n.nat?)

end Json

/-- An instant given as seconds since 1970 and nanoseconds. -/
def Instant.ofJson? (v : Json) : Option Instant := do
  let (seconds, nanos) ← v.secondsAndNanos?
  Instant.ofSeconds? seconds nanos

def Instant.toJson (t : Instant) : Json :=
  .ofEntries [("secs", .ofInt t.parts.1), ("nanos", .ofNat t.parts.2)]

/-- A span given as seconds, rounded down, and nanoseconds above them. -/
def Span.ofJson? (v : Json) : Option Span := do
  let (seconds, nanos) ← v.secondsAndNanos?
  Span.ofSeconds? seconds nanos

/-- A generator of identifiers by its kind; a sequential one unless another kind is named. A random
one takes its bytes from a given source. -/
def IdGenerator.ofJsonWith (bytes : List UInt8) (v : Json) : IdGenerator :=
  match v.text "kind" with
  | "random" =>
    .random (v.text "prefix") (((v.get? "byte_len").bind Json.nat?).getD 8) bytes
  | "list" => .list ((v.items "ids").filterMap Json.str?)
  | _ => .sequential ((v.text? "prefix").getD "proc-") 0

/-- The numbers from zero on, in eight bytes each. -/
def countingBytes : List UInt8 :=
  (List.range (Nat.pow 2 16)).map fun k ↦ .ofNat (k / 8 / Nat.pow 256 (7 - k % 8))

/-- A generator for a request. No answer shows random bytes, so any source will do that does not
soon repeat itself. -/
def IdGenerator.ofJson (v : Json) : IdGenerator := .ofJsonWith countingBytes v

def IdGenerator.default : IdGenerator := .standard countingBytes

end ComponentHost
