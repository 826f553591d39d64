/-!
# Points in time

A date and a time of day in universal time, to the microsecond.
-/

namespace AbiIndex

structure Timestamp where
  year : Nat
  month : Nat
  day : Nat
  hour : Nat
  minute : Nat
  second : Nat
  microsecond : Nat
deriving DecidableEq

namespace Timestamp

/-- A number with zeros in front, up to the given width. -/
def padded (width n : Nat) : String :=
  let digits := Nat.toDigits 10 n
  String.ofList (List.replicate (width - digits.length) '0' ++ digits)

/-- The year, month and day of a day counted from the first of March of the year zero. Years that
start in March have their leap day at the end, so that months have fixed starts. -/
def civil (days : Nat) : Nat × Nat × Nat :=
  let era := days / 146097
  let dayOfEra := days % 146097
  let yearOfEra := (dayOfEra - dayOfEra / 1460 + dayOfEra / 36524 - dayOfEra / 146096) / 365
  let dayOfYear := dayOfEra - (365 * yearOfEra + yearOfEra / 4 - yearOfEra / 100)
  let month := (5 * dayOfYear + 2) / 153
  let day := dayOfYear - (153 * month + 2) / 5 + 1
  let year := yearOfEra + 400 * era
  -- January and February belong to the next civil year
  if month < 10 then (year, month + 3, day) else (year + 1, month - 9, day)

/-- The days from the first of March of the year zero to the first of January 1970. -/
def epochDays : Nat := 719468

/-- The point in time a number of microseconds after the start of 1970. -/
def ofMicroseconds (n : Nat) : Timestamp :=
  let seconds := n / 1000000
  let (year, month, day) := civil (epochDays + seconds / 86400)
  ⟨year, month, day, seconds / 3600 % 24, seconds / 60 % 60, seconds % 60, n % 1000000⟩

/-- The date. -/
def date (t : Timestamp) : String :=
  s!"{padded 4 t.year}-{padded 2 t.month}-{padded 2 t.day}"

/-- The time of day in seconds. -/
def clock (t : Timestamp) : String :=
  s!"{padded 2 t.hour}:{padded 2 t.minute}:{padded 2 t.second}"

/-- Date and time as exports state them; the fraction is left out if it is zero. -/
def iso (t : Timestamp) : String :=
  let fraction := if t.microsecond = 0 then "" else "." ++ padded 6 t.microsecond
  s!"{t.date}T{t.clock}{fraction}Z"

end Timestamp

end AbiIndex
