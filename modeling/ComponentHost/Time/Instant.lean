/-!
Instants and spans of time, counted in nanoseconds.

An instant lies between the first and the last moment of the calendar. A span holds at most
`2 ^ 63 - 1` milliseconds either way.
-/

set_option autoImplicit false

namespace ComponentHost

def nanosPerSecond : Int := 1000000000

def nanosPerMilli : Int := 1000000

namespace Instant

def earliest : Int := -8334601228800 * nanosPerSecond

def latest : Int := 8210266876799 * nanosPerSecond + 999999999

end Instant

/-- A point in time, by the nanoseconds since 1970. -/
structure Instant where
  nanos : Int
  earliest_le : Instant.earliest ≤ nanos
  le_latest : nanos ≤ Instant.latest
  deriving DecidableEq

namespace Instant

def ofNanos? (nanos : Int) : Option Instant :=
  if h : earliest ≤ nanos ∧ nanos ≤ latest then some ⟨nanos, h.1, h.2⟩ else none

def ofSeconds? (seconds : Int) (nanos : Nat) : Option Instant :=
  if nanos < 1000000000 then ofNanos? (seconds * nanosPerSecond + nanos) else none

/-- Whole seconds, rounded down, and the nanoseconds above them. -/
def parts (t : Instant) : Int × Nat :=
  (t.nanos / nanosPerSecond, (t.nanos % nanosPerSecond).toNat)

end Instant

namespace Span

/-- The largest number of milliseconds. -/
def maxMillis : Int := 0x7fffffffffffffff

end Span

/-- A length of time, possibly negative. -/
structure Span where
  nanos : Int
  bounded : -(Span.maxMillis * nanosPerMilli) ≤ nanos ∧ nanos ≤ Span.maxMillis * nanosPerMilli
  deriving DecidableEq

namespace Span

def ofNanos? (nanos : Int) : Option Span :=
  if h : -(maxMillis * nanosPerMilli) ≤ nanos ∧ nanos ≤ maxMillis * nanosPerMilli then
    some ⟨nanos, h⟩
  else none

def ofSeconds? (seconds : Int) (nanos : Nat) : Option Span :=
  if nanos < 1000000000 then ofNanos? (seconds * nanosPerSecond + nanos) else none

/-- Whole milliseconds, cut toward zero. -/
def millis (s : Span) : Int := s.nanos.tdiv nanosPerMilli

end Span

end ComponentHost
