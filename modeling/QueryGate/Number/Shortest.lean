import QueryGate.Number.Binary

namespace QueryGate

/-!
# Shortest decimals

A decimal reads back as a magnitude if it lies in the magnitude's rounding interval, which reaches
half-way to both neighbours. `Magnitude.shortest` finds the coarsest decimal grid with a point in
that interval, so that no decimal with fewer digits reads back, and takes the point on it that is
nearest to the magnitude.
-/

/-- The number `digits * 10 ^ exponent`. -/
structure Decimal where
  digits : Nat
  exponent : Int
deriving DecidableEq, Repr

namespace Magnitude

/-- The bounds of the rounding interval and the magnitude between them, on a common scale. -/
structure Interval where
  low : Nat
  middle : Nat
  high : Nat
  /-- Whether the bounds belong to the interval. -/
  closed : Bool
deriving DecidableEq, Repr

/-- The rounding interval in quarters of the last place. Below a power of two the neighbour is only
half as far away. -/
def interval (f : BinaryFormat) (m : Magnitude) : Interval :=
  let nearBelow := m.significand == Nat.pow 2 (f.bits - 1) && f.leastExponent < m.exponent
  { low := 4 * m.significand - (if nearBelow then 1 else 2)
    middle := 4 * m.significand
    high := 4 * m.significand + 2
    closed := m.significand % 2 == 0 }

/-- Whether a point lies in an interval. -/
def Interval.holds (i : Interval) (point : Nat) : Bool :=
  if i.closed then i.low ≤ point && point ≤ i.high else i.low < point && point < i.high

/-- The interval with all its numbers multiplied by a factor. -/
def Interval.scaledBy (i : Interval) (factor : Nat) : Interval :=
  { i with low := i.low * factor, middle := i.middle * factor, high := i.high * factor }

/-- The multiple of a unit in an interval that is nearest to its middle, if there is one; half-way
it is the even multiple. -/
def Interval.nearestMultiple? (i : Interval) (unit : Nat) : Option Nat :=
  let below := i.middle / unit
  let above := below + 1
  match i.holds (below * unit), i.holds (above * unit) with
  | true, true => some (⟨i.middle, unit⟩ : Ratio).rounded
  | true, false => some below
  | false, true => some above
  | false, false => none

/-- The multiple of `10 ^ k` that reads back, if there is one. -/
def onGrid? (f : BinaryFormat) (m : Magnitude) (k : Int) : Option Decimal :=
  let e := m.exponent - 2
  let scaled := (m.interval f).scaledBy (Nat.pow 2 e.toNat * Nat.pow 10 (-k).toNat)
  (scaled.nearestMultiple? (Nat.pow 2 (-e).toNat * Nat.pow 10 k.toNat)).map fun digits => ⟨digits, k⟩

/-- The exponent of a power of ten above the magnitude and near it; the decimal logarithm of two is
just below 0.30103. -/
def tenAbove (m : Magnitude) : Int :=
  let e : Int := m.significand.log2 + 1 + m.exponent
  e * 30103 / 100000 + 1

/-- The shortest decimal that reads back as a magnitude. Seventeen digits are always enough. -/
def shortest (f : BinaryFormat) (m : Magnitude) : Decimal :=
  let grids := (List.range 21).map fun (i : Nat) => m.tenAbove - i
  (grids.findSome? (m.onGrid? f)).getD ⟨0, 0⟩

end Magnitude

/-- The shortest decimal that reads back as a double, less the sign. -/
def Double.shortest (x : Double) : Decimal := x.magnitude.shortest .double

end QueryGate
