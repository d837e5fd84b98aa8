import ComponentHost.Error.Basic
import ComponentHost.Time.Instant

/-!
Schedules that fire at a fixed interval from an anchor.

The step between two runs is the interval in whole milliseconds. Nothing drives a schedule; it
only answers when the next run after a given instant is.
-/

set_option autoImplicit false

namespace ComponentHost

/-- A schedule that fires every `interval` starting at `anchor`. -/
structure Schedule where
  anchor : Instant
  interval : Span
  positive : 0 < interval.millis

namespace Schedule

def ofInterval (anchor : Instant) (interval : Span) : Except Error Schedule :=
  if h : 0 < interval.millis then .ok ⟨anchor, interval, h⟩
  else .error (.validation "schedule interval must be at least one millisecond")

/-- Milliseconds between two runs. -/
def step (s : Schedule) : Int := s.interval.millis

/-- Whole milliseconds from the anchor to an instant, cut toward zero. -/
def elapsed (s : Schedule) (after : Instant) : Int :=
  (after.nanos - s.anchor.nanos).tdiv nanosPerMilli

/-- How many steps fit between the anchor and an instant. -/
def periods (s : Schedule) (after : Instant) : Int := (s.elapsed after).tdiv s.step

/-- Milliseconds from the anchor to the run after an instant. -/
def offset (s : Schedule) (after : Instant) : Int := (s.periods after + 1) * s.step

/-- The first run strictly after `after`; there is none beyond the end of the calendar. -/
def next (s : Schedule) (after : Instant) : Option Instant :=
  if after.nanos < s.anchor.nanos then some s.anchor
  else if s.offset after ≤ Span.maxMillis then
    Instant.ofNanos? (s.anchor.nanos + s.offset after * nanosPerMilli)
  else none

end Schedule

end ComponentHost
