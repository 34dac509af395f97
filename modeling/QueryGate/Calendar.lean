namespace QueryGate

/-!
# Dates and times of day

Days are counted from 1 January 2000 in the Gregorian calendar, which is extended to all years;
times in microseconds from the start of that day. The texts are those of ISO 8601 in the extended
format.
-/

/-- A date. -/
structure Date where
  year : Int
  month : Nat
  day : Nat
deriving DecidableEq, Repr

namespace Date

/-- Days in the four hundred years after which the calendar repeats. -/
def daysPerCycle : Nat := 146097

/-- Days from 1 March of the year 0 to 1 January 2000. -/
def daysToEpoch : Int := 730425

/-- The year of a day of a cycle, where years start in March. A fourth year has a day more, a
hundredth year has not, and the last year of the cycle has. -/
def yearOfCycle (day : Nat) : Nat := (day - day / 1460 + day / 36524 - day / 146096) / 365

/-- Days from the start of a cycle to the start of a year of it. -/
def daysBefore (year : Nat) : Nat := 365 * year + year / 4 - year / 100

/-- The date of a day. -/
def ofDay (n : Int) : Date :=
  let days := n + daysToEpoch
  let cycle := days.fdiv daysPerCycle
  let dayOfCycle := (days.fmod daysPerCycle).toNat
  let year := yearOfCycle dayOfCycle
  let dayOfYear := dayOfCycle - daysBefore year
  let monthFromMarch := (5 * dayOfYear + 2) / 153
  let month := if monthFromMarch < 10 then monthFromMarch + 3 else monthFromMarch - 9
  { year := 400 * cycle + year + if month ≤ 2 then 1 else 0
    month := month
    day := dayOfYear - (153 * monthFromMarch + 2) / 5 + 1 }

/-- A number with at least so many digits. -/
def padded (count n : Nat) : String :=
  String.ofList ((Nat.toDigits 10 n).leftpad count '0')

/-- A year with at least four digits, and a sign unless it is one of 0 to 9999. -/
def yearText (year : Int) : String :=
  let sign := if year < 0 then "-" else if 9999 < year then "+" else ""
  sign ++ padded 4 year.natAbs

/-- Year, month and day. -/
def text (d : Date) : String :=
  yearText d.year ++ "-" ++ padded 2 d.month ++ "-" ++ padded 2 d.day

end Date

/-- A time of day in microseconds. -/
structure TimeOfDay where
  micros : Nat
deriving DecidableEq, Repr

namespace TimeOfDay

/-- Microseconds in a second. -/
def second : Nat := 1000000

/-- Microseconds in a day. -/
def day : Nat := 86400 * second

/-- The time of day of a moment. -/
def ofMicros (n : Int) : TimeOfDay := ⟨(n.fmod day).toNat⟩

/-- The fraction of a second: none, in milliseconds if they are whole, or in microseconds. -/
def fractionText (micros : Nat) : String :=
  if micros = 0 then ""
  else if micros % 1000 = 0 then "." ++ Date.padded 3 (micros / 1000)
  else "." ++ Date.padded 6 micros

/-- Hours, minutes, seconds and fraction. -/
def text (t : TimeOfDay) : String :=
  let seconds := t.micros / second
  Date.padded 2 (seconds / 3600) ++ ":" ++ Date.padded 2 (seconds / 60 % 60) ++ ":" ++
    Date.padded 2 (seconds % 60) ++ fractionText (t.micros % second)

end TimeOfDay

/-- The date and time of a moment. -/
def momentText (micros : Int) : String :=
  (Date.ofDay (micros.fdiv TimeOfDay.day)).text ++ "T" ++ (TimeOfDay.ofMicros micros).text

end QueryGate
