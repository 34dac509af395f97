namespace QueryGate

/-!
# Time

Durations, moments, and a clock that moves when it is told to. All are counted in nanoseconds, a
moment from one that comes before all others. A duration fits if its seconds fit 64 bits, a moment if
they fit 63; where a sum does not fit there is no result.
-/

/-- A length of time. -/
structure Duration where
  ns : Nat
deriving DecidableEq, Repr

namespace Duration

/-- Nanoseconds in a second. -/
def second : Nat := 1000000000

/-- Nanoseconds in a millisecond. -/
def milli : Nat := 1000000

/-- So many seconds. -/
def ofSeconds (n : Nat) : Duration := ⟨n * second⟩

/-- So many milliseconds. -/
def ofMillis (n : Nat) : Duration := ⟨n * milli⟩

/-- The whole seconds of a duration. -/
def seconds (d : Duration) : Nat := d.ns / second

/-- The whole milliseconds of a duration. -/
def millis (d : Duration) : Nat := d.ns / milli

/-- Whether the seconds fit 64 bits. -/
def fits (d : Duration) : Bool := d.seconds < Nat.pow 2 64

/-- A decimal fraction with `places` digits after the point, less the zeros at its end. -/
def fractionText (places value : Nat) : String :=
  let digits := (Nat.toDigits 10 value).leftpad places '0'
  match (digits.reverse.dropWhile (· == '0')).reverse with
  | [] => ""
  | ds => String.ofList ('.' :: ds)

/-- The duration in the largest unit that it fills, with as many decimals as it needs. -/
def text (d : Duration) : String :=
  let inUnit (unit places : Nat) (name : String) : String :=
    toString (d.ns / unit) ++ fractionText places (d.ns % unit) ++ name
  if second ≤ d.ns then inUnit second 9 "s"
  else if milli ≤ d.ns then inUnit milli 6 "ms"
  else if 1000 ≤ d.ns then inUnit 1000 3 "µs"
  else inUnit 1 0 "ns"

end Duration

/-- A moment: the time since the first one. -/
structure Moment where
  ns : Nat
deriving DecidableEq, Repr

namespace Moment

/-- Whether the seconds fit 63 bits. -/
def fits (m : Moment) : Bool := m.ns / Duration.second < Nat.pow 2 63

/-- The moment a duration later, if there is one. -/
def after? (m : Moment) (d : Duration) : Option Moment :=
  let later : Moment := ⟨m.ns + d.ns⟩
  if later.fits then some later else none

/-- Whether a moment comes before another one. -/
def isBefore (m n : Moment) : Bool := m.ns < n.ns

end Moment

/-- A clock that was made at a moment and has been moved on since. -/
structure Clock where
  made : Moment
  elapsed : Duration
deriving DecidableEq, Repr

namespace Clock

/-- A clock that is made at a moment. -/
def start (made : Moment) : Clock := ⟨made, ⟨0⟩⟩

/-- The clock a duration later, if the time that it has run still fits. -/
def advance? (c : Clock) (d : Duration) : Option Clock :=
  let elapsed : Duration := ⟨c.elapsed.ns + d.ns⟩
  if elapsed.fits then some { c with elapsed } else none

/-- The moment that the clock shows, if there is one. -/
def now? (c : Clock) : Option Moment := c.made.after? c.elapsed

end Clock

end QueryGate
