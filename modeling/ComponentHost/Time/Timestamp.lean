import ComponentHost.Wire.Codec

/-!
Points in time as they are written in records: a calendar date and a time of day in UTC, to the
nanosecond, with the second 60 of a leap second.
-/

set_option autoImplicit false

namespace ComponentHost

namespace Calendar

def isLeap (year : Int) : Bool := year % 4 == 0 && (year % 100 != 0 || year % 400 == 0)

def daysInMonth (year : Int) (month : Nat) : Nat :=
  if month = 2 then (if isLeap year then 29 else 28)
  else if month = 4 || month = 6 || month = 9 || month = 11 then 30
  else 31

def minYear : Int := -262143

def maxYear : Int := 262142

/-- Is this a date of the calendar? -/
def isDate (year : Int) (month day : Nat) : Bool :=
  minYear ≤ year && year ≤ maxYear && 1 ≤ month && month ≤ 12 && 1 ≤ day
    && day ≤ daysInMonth year month

end Calendar

/-- A day of the calendar. -/
structure Date where
  year : Int
  month : Nat
  day : Nat
  isDate : Calendar.isDate year month day = true
  deriving DecidableEq

namespace Date

def ofParts? (year : Int) (month day : Nat) : Option Date :=
  if h : Calendar.isDate year month day = true then some ⟨year, month, day, h⟩ else none

/-- The next day, unless the calendar ends. -/
def next? (d : Date) : Option Date :=
  if d.day < Calendar.daysInMonth d.year d.month then ofParts? d.year d.month (d.day + 1)
  else if d.month < 12 then ofParts? d.year (d.month + 1) 1
  else ofParts? (d.year + 1) 1 1

/-- The day before, unless the calendar begins. -/
def previous? (d : Date) : Option Date :=
  if 1 < d.day then ofParts? d.year d.month (d.day - 1)
  else if 1 < d.month then
    ofParts? d.year (d.month - 1) (Calendar.daysInMonth d.year (d.month - 1))
  else ofParts? (d.year - 1) 12 31

end Date

/-- A time of day; the second 60 is a leap second. -/
structure Clock where
  hour : Nat
  minute : Nat
  second : Nat
  nanos : Nat
  isTime : (hour < 24 && minute < 60 && second ≤ 60 && nanos < 1000000000) = true
  deriving DecidableEq

namespace Clock

def ofParts? (hour minute second nanos : Nat) : Option Clock :=
  if h : (hour < 24 && minute < 60 && second ≤ 60 && nanos < 1000000000) = true then
    some ⟨hour, minute, second, nanos, h⟩
  else none

end Clock

/-- A point in time, in UTC. -/
structure Timestamp where
  date : Date
  clock : Clock
  deriving DecidableEq

namespace Timestamp

def epoch : Timestamp := ⟨⟨1970, 1, 1, by decide⟩, ⟨0, 0, 0, 0, by decide⟩⟩

instance : Inhabited Timestamp := ⟨epoch⟩

/-- The point in time that clocks `minutes` ahead of UTC show as this date and time. -/
def ofLocal? (date : Date) (clock : Clock) (minutes : Int) : Option Timestamp :=
  let total := (clock.hour * 60 + clock.minute : Nat) - minutes
  let date? :=
    if total < 0 then date.previous? else if total ≥ 1440 then date.next? else some date
  let ofDay := (total % 1440).toNat
  match date?, Clock.ofParts? (ofDay / 60) (ofDay % 60) clock.second clock.nanos with
  | some date, some clock => some ⟨date, clock⟩
  | _, _ => none

end Timestamp

end ComponentHost
