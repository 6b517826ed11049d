/-!
# Dates and times of day

Dates of the Gregorian calendar from year 1 to year 9999, and moments: a date with a time
of day and perhaps an offset from universal time.
-/

namespace FrontLint

/-- Why numbers name no date or moment. -/
inductive CalendarFault where
  | year (n : Nat)
  | month
  | day
  | hour
  | minute
  | second
  /-- An offset of a day or more, in minutes. -/
  | offset (minutes : Int)
deriving DecidableEq

/-- A span of minutes as days and the seconds beyond them, which are never negative. -/
def spanText (minutes : Int) : String :=
  let days := minutes / 1440
  let seconds := minutes % 1440 * 60
  let parts :=
    (if days = 0 then [] else [s!"days={days}"]) ++
      (if seconds = 0 then [] else [s!"seconds={seconds}"])
  let body := if parts.isEmpty then "0" else ", ".intercalate parts
  s!"datetime.timedelta({body})"

def CalendarFault.message : CalendarFault → String
  | .year n => s!"year {n} is out of range"
  | .month => "month must be in 1..12"
  | .day => "day is out of range for month"
  | .hour => "hour must be in 0..23"
  | .minute => "minute must be in 0..59"
  | .second => "second must be in 0..59"
  | .offset minutes =>
      "offset must be a timedelta strictly between -timedelta(hours=24) and timedelta(hours=24), not "
        ++ spanText minutes ++ "."

structure Date where
  year : Nat
  month : Nat
  day : Nat
deriving DecidableEq

/-- A date and a time of day; the offset counts minutes east of universal time. -/
structure Moment where
  date : Date
  hour : Nat
  minute : Nat
  second : Nat
  microsecond : Nat
  offset : Option Int
deriving DecidableEq

def isLeapYear (year : Nat) : Bool := year % 4 == 0 && (year % 100 != 0 || year % 400 == 0)

def daysInMonth (year month : Nat) : Nat :=
  if month = 2 then if isLeapYear year then 29 else 28
  else if month = 4 || month = 6 || month = 9 || month = 11 then 30
  else 31

def Date.check (d : Date) : Except CalendarFault Date :=
  if d.year = 0 || 9999 < d.year then .error (.year d.year)
  else if d.month = 0 || 12 < d.month then .error .month
  else if d.day = 0 || daysInMonth d.year d.month < d.day then .error .day
  else .ok d

/-- The parts are checked in order, the offset before all others. -/
def Moment.check (m : Moment) : Except CalendarFault Moment := do
  if let some minutes := m.offset then
    if minutes ≤ -1440 || 1440 ≤ minutes then throw (.offset minutes)
  let _ ← m.date.check
  if 23 < m.hour then throw .hour
  if 59 < m.minute then throw .minute
  if 59 < m.second then throw .second
  return m

/-- The number of days before a date, counted from the start of year 1. -/
def Date.dayNumber (d : Date) : Nat :=
  let y := d.year - 1
  let months := (List.range (d.month - 1)).foldl (fun n m => n + daysInMonth d.year (m + 1)) 0
  y * 365 + y / 4 - y / 100 + y / 400 + months + (d.day - 1)

/-- Microseconds of universal time from the start of year 1, for a moment with an offset. -/
def Moment.instant? (m : Moment) : Option Int :=
  m.offset.map fun minutes =>
    ((((m.date.dayNumber * 24 + m.hour : Nat) : Int) * 60 + m.minute - minutes) * 60 + m.second)
      * 1000000 + m.microsecond

/-- The decimal digits of `n`, filled up with zeros to a width. -/
def padded (width n : Nat) : String :=
  let digits := Nat.toDigits 10 n
  String.ofList (List.replicate (width - digits.length) '0' ++ digits)

def Date.text (d : Date) : String :=
  s!"{padded 4 d.year}-{padded 2 d.month}-{padded 2 d.day}"

def offsetText (minutes : Int) : String :=
  let sign := if minutes < 0 then "-" else "+"
  s!"{sign}{padded 2 (minutes.natAbs / 60)}:{padded 2 (minutes.natAbs % 60)}"

def Moment.text (m : Moment) : String :=
  let fraction := if m.microsecond = 0 then "" else s!".{padded 6 m.microsecond}"
  let offset := (m.offset.map offsetText).getD ""
  s!"{m.date.text} {padded 2 m.hour}:{padded 2 m.minute}:{padded 2 m.second}{fraction}{offset}"

/-- A date as it stands inside a set. -/
def Date.memberText (d : Date) : String :=
  s!"datetime.date({d.year}, {d.month}, {d.day})"

/-- A moment as it stands inside a set: seconds and microseconds are left out when they
and all smaller units are zero. -/
def Moment.memberText (m : Moment) : String :=
  let small :=
    if m.microsecond != 0 then s!", {m.second}, {m.microsecond}"
    else if m.second != 0 then s!", {m.second}"
    else ""
  let zone :=
    match m.offset with
    | none => ""
    | some 0 => ", tzinfo=datetime.timezone.utc"
    | some minutes => s!", tzinfo=datetime.timezone({spanText minutes})"
  s!"datetime.datetime({m.date.year}, {m.date.month}, {m.date.day}, {m.hour}, {m.minute}{small}{zone})"

end FrontLint
