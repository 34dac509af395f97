namespace QueryGate

/-!
# Binary floating-point numbers

A binary format has significands of so many bits and exponents between two bounds. Its magnitudes
are the products of a significand and a power of two. `BinaryFormat.nearest?` rounds a ratio of
natural numbers to the nearest magnitude; half-way it takes the even significand. All arithmetic
on magnitudes is exact arithmetic followed by that one rounding.
-/

/-- A binary format. -/
structure BinaryFormat where
  /-- Significands are below two to this power. -/
  bits : Nat
  leastExponent : Int
  greatestExponent : Int
deriving DecidableEq, Repr

namespace BinaryFormat

/-- Double precision. -/
def double : BinaryFormat := ⟨53, -1074, 971⟩

/-- Single precision. -/
def single : BinaryFormat := ⟨24, -149, 104⟩

end BinaryFormat

/-- The number `significand * 2 ^ exponent`. -/
structure Magnitude where
  significand : Nat
  exponent : Int
deriving DecidableEq, Repr

/-- A ratio of natural numbers; the denominator is not zero. -/
structure Ratio where
  numerator : Nat
  denominator : Nat
deriving DecidableEq, Repr

namespace Ratio

/-- The ratio divided by a power of two. -/
def shiftRight (q : Ratio) (e : Int) : Ratio :=
  ⟨q.numerator * Nat.pow 2 (-e).toNat, q.denominator * Nat.pow 2 e.toNat⟩

/-- The product of two ratios. -/
def times (p q : Ratio) : Ratio :=
  ⟨p.numerator * q.numerator, p.denominator * q.denominator⟩

/-- One ratio divided by another one. -/
def dividedBy (p q : Ratio) : Ratio :=
  ⟨p.numerator * q.denominator, p.denominator * q.numerator⟩

/-- The nearest natural number; half-way it is the even one. -/
def rounded (q : Ratio) : Nat :=
  let whole := q.numerator / q.denominator
  let rest := q.numerator % q.denominator
  if 2 * rest < q.denominator then whole
  else if q.denominator < 2 * rest then whole + 1
  else whole + whole % 2

/-- The greatest power of two that is not above a positive ratio. -/
def log2 (q : Ratio) : Int :=
  let e : Int := q.numerator.log2 - q.denominator.log2
  let scaled := q.shiftRight e
  if scaled.numerator < scaled.denominator then e - 1 else e

end Ratio

namespace BinaryFormat

/-- The magnitude of a format that is nearest to a ratio, if it is not too large. -/
def nearest? (f : BinaryFormat) (q : Ratio) : Option Magnitude :=
  if q.numerator = 0 then some ⟨0, f.leastExponent⟩
  else
    let e := max f.leastExponent (q.log2 - (f.bits - 1))
    let s := (q.shiftRight e).rounded
    let m : Magnitude := if s = Nat.pow 2 f.bits then ⟨Nat.pow 2 (f.bits - 1), e + 1⟩ else ⟨s, e⟩
    if m.exponent ≤ f.greatestExponent then some m else none

end BinaryFormat

namespace Magnitude

/-- The magnitude as a ratio. -/
def ratio (m : Magnitude) : Ratio := (⟨m.significand, 1⟩ : Ratio).shiftRight (-m.exponent)

/-- Whether the magnitude is zero. -/
def isZero (m : Magnitude) : Bool := m.significand == 0

end Magnitude

/-- A finite double-precision number. Zero has a sign, too. -/
structure Double where
  negative : Bool
  magnitude : Magnitude
deriving DecidableEq, Repr

namespace Double

/-- The double nearest to an integer, if it is not too large. -/
def ofInt? (n : Int) : Option Double :=
  (BinaryFormat.double.nearest? ⟨n.natAbs, 1⟩).map fun m => ⟨n < 0, m⟩

/-- The nearest number of single precision, as a double, if it is not too large. -/
def toSingle? (x : Double) : Option Double := do
  let single ← BinaryFormat.single.nearest? x.magnitude.ratio
  let double ← BinaryFormat.double.nearest? single.ratio
  return ⟨x.negative, double⟩

end Double

end QueryGate
