/-
Dates and moments of the calendar in use today, carried back to the
year 1.

A moment has a date and a time of day, and may say by how much its clock
is ahead of universal time. Moments that say so are compared by the
instant they name; the others, by what they show.
-/
namespace Reckoner.Calendar

-- =============================================================== the faults

/-- What is wrong with a date, a time of day or a clock. -/
inductive Fault where
  | year (n : Nat)
  | month
  | day
  | hour
  | minute
  | second
  | offset (minutes : Int)
  deriving DecidableEq, Repr

-- ================================================================ the dates

/-- A day of the calendar. -/
structure Date where
  year : Nat
  month : Nat
  day : Nat
  deriving DecidableEq, Repr

namespace Date

/-- Years with a 29th of February. -/
def isLeap (year : Nat) : Bool :=
  year % 4 == 0 && (year % 100 != 0 || year % 400 == 0)

/-- The number of days in a month. -/
def daysIn (year month : Nat) : Nat :=
  match month with
  | 2 => if isLeap year then 29 else 28
  | 4 | 6 | 9 | 11 => 30
  | _ => 31

/-- A date that the calendar has, or what is wrong with it. -/
def check (d : Date) : Except Fault Date :=
  if d.year = 0 then .error (.year 0)
  else if d.month = 0 ∨ 12 < d.month then .error .month
  else if d.day = 0 ∨ daysIn d.year d.month < d.day then .error .day
  else .ok d

/-- The number of days from the first day of the year 1 to a date. -/
def ordinal (d : Date) : Nat :=
  let past := d.year - 1
  365 * past + past / 4 - past / 100 + past / 400
    + (((List.range d.month).drop 1).map (daysIn d.year)).foldr (· + ·) 0
      + (d.day - 1)

end Date

-- ============================================================== the moments

/-- A time of day on a date. -/
structure Moment where
  date : Date
  hour : Nat
  minute : Nat
  second : Nat
  microsecond : Nat := 0
  /-- By how many minutes the clock is ahead of universal time. -/
  offset : Option Int := none
  deriving DecidableEq, Repr

namespace Moment

/-- A moment that there is, or what is wrong with it: the clock is checked
first, then the date, and the time of day last. -/
def check (m : Moment) : Except Fault Moment := do
  let offset := m.offset.getD 0
  if 24 * 60 ≤ offset.natAbs then .error (.offset offset)
  else
    let date ← m.date.check
    if 23 < m.hour then .error .hour
    else if 59 < m.minute then .error .minute
    else if 59 < m.second then .error .second
    else .ok { m with date }

/-- The number of microseconds that a clock has counted since the first
day of the year 1 when it shows a moment. -/
def shownInstant (m : Moment) : Int :=
  1000000 * (60 * (60 * (24 * m.date.ordinal + m.hour) + m.minute) + m.second)
    + m.microsecond

/-- The instant of universal time that a moment names, if it does. -/
def instant? (m : Moment) : Option Int :=
  m.offset.map fun minutes => m.shownInstant - 60 * 1000000 * minutes

/-- What a moment is known by: the instant it names or else shows. -/
def known (m : Moment) : Int := m.instant?.getD m.shownInstant

/-- Whether two moments are one: both name the same instant, or both show
the same without naming one. -/
def isSame (first second : Moment) : Bool :=
  first.offset.isSome == second.offset.isSome && first.known == second.known

end Moment

-- =============================================================== the words

/-- How a number of minutes is written as a span of time: in whole days,
which are negative for a negative number, and seconds on top of them. -/
def spanText (minutes : Int) : String :=
  let days := minutes / 1440
  let seconds := minutes % 1440 * 60
  let parts :=
    (if days = 0 then [] else [s!"days={days}"])
      ++ (if seconds = 0 then [] else [s!"seconds={seconds}"])
  let inside := if parts.isEmpty then "0" else ", ".intercalate parts
  s!"datetime.timedelta({inside})"

/-- What a fault says. -/
def Fault.message : Fault → String
  | .year n => s!"year {n} is out of range"
  | .month => "month must be in 1..12"
  | .day => "day is out of range for month"
  | .hour => "hour must be in 0..23"
  | .minute => "minute must be in 0..59"
  | .second => "second must be in 0..59"
  | .offset minutes =>
      "offset must be a timedelta strictly between -timedelta(hours=24) and "
        ++ s!"timedelta(hours=24), not {spanText minutes}."

/-- How a clock is written. -/
def clockText (minutes : Int) : String :=
  if minutes = 0 then "datetime.timezone.utc"
  else s!"datetime.timezone({spanText minutes})"

/-- How a date is written. -/
def Date.text (d : Date) : String :=
  s!"datetime.date({d.year}, {d.month}, {d.day})"

/-- How a moment is written. Seconds are left out where they are zero and
no fraction of a second follows, and so is a fraction that is zero. -/
def Moment.text (m : Moment) : String :=
  let always := [m.date.year, m.date.month, m.date.day, m.hour, m.minute]
  let finer :=
    if m.microsecond ≠ 0 then [m.second, m.microsecond]
    else if m.second ≠ 0 then [m.second]
    else []
  let numbers := ", ".intercalate ((always ++ finer).map toString)
  match m.offset with
  | some minutes =>
      s!"datetime.datetime({numbers}, tzinfo={clockText minutes})"
  | none => s!"datetime.datetime({numbers})"

end Reckoner.Calendar
