namespace QueryGate.Text

/-!
# Sets of characters as ranges of code points

A property of characters beyond ASCII is kept as a list of closed ranges; membership is a
search through the list.
-/

/-- The code points from `first` to `last`, both included. -/
structure CodeRange where
  first : Nat
  last : Nat

/-- Whether a code point lies in the range. -/
def CodeRange.covers (r : CodeRange) (n : Nat) : Bool := r.first ≤ n && n ≤ r.last

/-- Whether a code point lies in one of the ranges. -/
def inRanges (ranges : List CodeRange) (n : Nat) : Bool := ranges.any (·.covers n)

end QueryGate.Text
