/-!
# The calendar

Which dates, times of day and offsets from universal time there are. `Moment.check` gives the first
part of a moment that is out of its range.
-/

namespace AbiIndex.Calendar

def isLeapYear (year : Nat) : Bool := year % 4 = 0 && (year % 100 ≠ 0 || year % 400 = 0)

/-- The number of days of a month. -/
def daysIn (year month : Nat) : Nat :=
  if month = 2 then (if isLeapYear year then 29 else 28)
  else if month = 4 ∨ month = 6 ∨ month = 9 ∨ month = 11 then 30 else 31

/-- A part of a moment that is out of its range. -/
inductive Fault where
  | year (n : Nat)
  | month
  | day
  | hour
  | minute
  | second
  | offset (minutes : Int)
deriving DecidableEq

/-- A span of time as days and seconds; the days may be negative, the seconds are not. -/
def spanText (minutes : Int) : String :=
  let days := Int.fdiv minutes 1440
  let seconds := 60 * Int.fmod minutes 1440
  s!"datetime.timedelta(days={days}" ++ (if seconds = 0 then ")" else s!", seconds={seconds})")

/-- The wording of the fault. -/
def Fault.message : Fault → String
  | year n => s!"year {n} is out of range"
  | month => "month must be in 1..12"
  | day => "day is out of range for month"
  | hour => "hour must be in 0..23"
  | minute => "minute must be in 0..59"
  | second => "second must be in 0..59"
  | offset minutes =>
    "offset must be a timedelta strictly between -timedelta(hours=24) and timedelta(hours=24), not "
      ++ s!"{spanText minutes}."

/-- A time of day with its offset from universal time in minutes, if one is stated. -/
structure Clock where
  hour : Nat
  minute : Nat
  second : Nat
  offset : Option Int
deriving DecidableEq

/-- A date, with or without a time of day. -/
structure Moment where
  year : Nat
  month : Nat
  day : Nat
  clock : Option Clock
deriving DecidableEq

/-- The first fault of a date. -/
def checkDate (year month day : Nat) : Except Fault Unit :=
  if year = 0 then .error (.year year)
  else if month = 0 ∨ 12 < month then .error .month
  else if day = 0 ∨ daysIn year month < day then .error .day
  else .ok ()

namespace Clock

/-- The first fault of a time of day. -/
def check (c : Clock) : Except Fault Unit :=
  if 24 ≤ c.hour then .error .hour
  else if 60 ≤ c.minute then .error .minute
  else if 60 ≤ c.second then .error .second
  else .ok ()

/-- The fault of an offset: it must be less than a day. -/
def checkOffset (c : Clock) : Except Fault Unit :=
  match c.offset with
  | some minutes => if 1440 ≤ minutes.natAbs then .error (.offset minutes) else .ok ()
  | none => .ok ()

end Clock

/-- The first fault of a moment: of its offset, its date, its time of day. -/
def Moment.check (m : Moment) : Except Fault Unit := do
  if let some c := m.clock then c.checkOffset
  checkDate m.year m.month m.day
  if let some c := m.clock then c.check

end AbiIndex.Calendar
