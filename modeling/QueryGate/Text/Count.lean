namespace QueryGate.Text

/-!
# Counts

Unsigned 64-bit integers as decimal text.
-/

/-- The number of values of an unsigned 64-bit integer. -/
def countBound : Nat := Nat.pow 2 64

/-- The value of a text of decimal digits, most significant first. -/
def decimalValue (cs : List Char) : Nat :=
  cs.foldl (fun acc c => acc * 10 + (c.toNat - '0'.toNat)) 0

/-- The value of a text that holds decimal digits and nothing else, if it is below
`countBound`. -/
def readCount? (text : String) : Option Nat :=
  let cs := text.toList
  if !cs.isEmpty && cs.all Char.isDigit && decimalValue cs < countBound then
    some (decimalValue cs)
  else none

end QueryGate.Text
