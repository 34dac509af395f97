import QueryGate.Json

namespace QueryGate

/-!
# Reading JSON

A document is one value with blanks around it. Integers of 64 bits, signed or unsigned, are exact.
All other numbers are doubles: the digits that fit 64 bits are taken as an integer, which is
rounded, and then multiplied or divided by a rounded power of ten. Numbers beyond the doubles, lone
surrogates and values nested more than 127 deep are refused.
-/

namespace Json

/-! ### Blanks -/

/-- Whether a character may stand between tokens. -/
def isBlank (c : Char) : Bool := c == ' ' || c == '\n' || c == '\t' || c == '\r'

/-- The text from the first token on. -/
def skipBlanks (cs : List Char) : List Char := cs.dropWhile isBlank

/-! ### Texts -/

/-- The value of a hexadecimal digit. -/
def hexDigit? (c : Char) : Option Nat :=
  if '0' ≤ c ∧ c ≤ '9' then some (c.toNat - '0'.toNat)
  else if 'a' ≤ c ∧ c ≤ 'f' then some (c.toNat - 'a'.toNat + 10)
  else if 'A' ≤ c ∧ c ≤ 'F' then some (c.toNat - 'A'.toNat + 10)
  else none

/-- The value of four hexadecimal digits. -/
def codeUnit? (a b c d : Char) : Option Nat := do
  return 0x1000 * (← hexDigit? a) + 0x100 * (← hexDigit? b) + 0x10 * (← hexDigit? c) + (← hexDigit? d)

/-- The character that a letter after a backslash stands for. -/
def escaped? : Char → Option Char
  | '"' => some '"'
  | '\\' => some '\\'
  | '/' => some '/'
  | 'b' => some '\x08'
  | 'f' => some '\x0c'
  | 'n' => some '\n'
  | 'r' => some '\r'
  | 't' => some '\t'
  | _ => none

/-- The character of a code unit that is no surrogate. -/
def single? (unit : Nat) : Option Char :=
  if 0xD800 ≤ unit ∧ unit < 0xE000 then none else some (Char.ofNat unit)

/-- The character of two surrogates. -/
def paired? (high low : Nat) : Option Char :=
  if 0xD800 ≤ high ∧ high < 0xDC00 ∧ 0xDC00 ≤ low ∧ low < 0xE000 then
    some (Char.ofNat (0x10000 + (high - 0xD800) * 0x400 + (low - 0xDC00)))
  else none

/-- The characters up to the closing quote, and what follows it. -/
def textBody? : List Char → Option (List Char × List Char)
  | '"' :: rest => some ([], rest)
  | '\\' :: 'u' :: a :: b :: c :: d :: '\\' :: 'u' :: e :: f :: g :: h :: rest => do
    let unit ← codeUnit? a b c d
    match single? unit with
    | some c =>
      let (body, rest) ← textBody? ('\\' :: 'u' :: e :: f :: g :: h :: rest)
      return (c :: body, rest)
    | none =>
      let c ← paired? unit (← codeUnit? e f g h)
      let (body, rest) ← textBody? rest
      return (c :: body, rest)
  | '\\' :: 'u' :: a :: b :: c :: d :: rest => do
    let c ← single? (← codeUnit? a b c d)
    let (body, rest) ← textBody? rest
    return (c :: body, rest)
  | '\\' :: letter :: rest => do
    let c ← escaped? letter
    let (body, rest) ← textBody? rest
    return (c :: body, rest)
  | c :: rest =>
    if c.toNat < 0x20 then none
    else do
      let (body, rest) ← textBody? rest
      return (c :: body, rest)
  | [] => none

/-- A text in quotes. -/
def text? : List Char → Option (String × List Char)
  | '"' :: rest => (textBody? rest).map fun (body, rest) => (String.ofList body, rest)
  | _ => none

/-! ### Numbers -/

/-- The value of a decimal digit. -/
def digitValue (c : Char) : Nat := c.toNat - '0'.toNat

/-- Appends digits to a number while it fits 64 bits. Also gives the digits that are left. -/
def takeFitting (n : Nat) : List Char → Nat × List Char
  | [] => (n, [])
  | d :: ds =>
    let next := 10 * n + digitValue d
    if next < Nat.pow 2 64 then takeFitting next ds else (n, d :: ds)

/-- The double nearest to a power of ten. -/
def powerOfTen (k : Nat) : Ratio :=
  ((BinaryFormat.double.nearest? ⟨Nat.pow 10 k, 1⟩).getD ⟨0, 0⟩).ratio

/-- A magnitude times a power of ten. One step multiplies or divides by at most `1e308`. -/
def scaled? (m : Magnitude) (k : Int) : Option Magnitude :=
  if m.isZero then some m
  else if 0 ≤ k then
    if k ≤ 308 then BinaryFormat.double.nearest? (m.ratio.times (powerOfTen k.toNat)) else none
  else if -308 ≤ k then BinaryFormat.double.nearest? (m.ratio.dividedBy (powerOfTen (-k).toNat))
  else do
    scaled? (← BinaryFormat.double.nearest? (m.ratio.dividedBy (powerOfTen 308))) (k + 308)
termination_by (-k).toNat

/-- The parts of a number as written. -/
structure Numeral where
  negative : Bool
  whole : List Char
  /-- The digits after the point; none where there is no point. -/
  fraction : List Char
  exponent : Option Int
deriving DecidableEq, Repr

namespace Numeral

/-- Whether the number has neither a fraction nor an exponent. -/
def isWhole (n : Numeral) : Bool := n.fraction.isEmpty && n.exponent.isNone

/-- The number as a double. -/
def double? (n : Numeral) : Option Double := do
  let (leading, dropped) := takeFitting 0 n.whole
  let (significand, left) := takeFitting leading n.fraction
  let read : Int := n.fraction.length - left.length
  let m ← BinaryFormat.double.nearest? ⟨significand, 1⟩
  let m ← scaled? m (dropped.length - read + n.exponent.getD 0)
  return ⟨n.negative, m⟩

/-- The value of a number. -/
def value? (n : Numeral) : Option Json :=
  match n.isWhole, takeFitting 0 n.whole with
  | true, (k, []) =>
    if !n.negative then some (.int k)
    else if 0 < k ∧ k ≤ Nat.pow 2 63 then some (.int (-k))
    else n.double?.map .double
  | _, _ => n.double?.map .double

end Numeral

/-- The digits at the start of a text, at least one. -/
def digits? (cs : List Char) : Option (List Char × List Char) :=
  match cs.takeWhile Char.isDigit with
  | [] => none
  | ds => some (ds, cs.dropWhile Char.isDigit)

/-- The digits before the point: a zero stands alone. -/
def whole? (cs : List Char) : Option (List Char × List Char) := do
  let (ds, rest) ← digits? cs
  match ds with
  | '0' :: _ :: _ => none
  | ds => return (ds, rest)

/-- The digits after a point, if there is one. -/
def fraction? : List Char → Option (List Char × List Char)
  | '.' :: rest => digits? rest
  | cs => some ([], cs)

/-- The sign of an exponent. -/
def exponentSign : List Char → Int × List Char
  | '+' :: rest => (1, rest)
  | '-' :: rest => (-1, rest)
  | cs => (1, cs)

/-- The exponent, if there is one. -/
def exponent? : List Char → Option (Option Int × List Char)
  | c :: rest =>
    if c = 'e' ∨ c = 'E' then do
      let (sign, rest) := exponentSign rest
      let (ds, rest) ← digits? rest
      return (some (sign * ds.foldl (fun n d => 10 * n + digitValue d) 0), rest)
    else some (none, c :: rest)
  | [] => some (none, [])

/-- The parts of a number at the start of a text. -/
def numeral? (cs : List Char) : Option (Numeral × List Char) := do
  let (negative, cs) := match cs with
    | '-' :: rest => (true, rest)
    | cs => (false, cs)
  let (whole, cs) ← whole? cs
  let (fraction, cs) ← fraction? cs
  let (exponent, cs) ← exponent? cs
  return (⟨negative, whole, fraction, exponent⟩, cs)

/-! ### Values -/

/-- A value without items or members. -/
def scalar? (cs : List Char) : Option (Json × List Char) :=
  match cs with
  | 'n' :: 'u' :: 'l' :: 'l' :: rest => some (.null, rest)
  | 't' :: 'r' :: 'u' :: 'e' :: rest => some (.bool true, rest)
  | 'f' :: 'a' :: 'l' :: 's' :: 'e' :: rest => some (.bool false, rest)
  | '"' :: _ => (text? cs).map fun (s, rest) => (.text s, rest)
  | _ => do
    let (n, rest) ← numeral? cs
    return (← n.value?, rest)

/-- One or more entries with commas between them, and what follows the closing bracket. Each entry
takes at least one character, so there are at most `fuel` of them. -/
def entries? (closing : Char) (entry : List Char → Option (α × List Char)) :
    Nat → List Char → Option (List α × List Char)
  | 0, _ => none
  | fuel + 1, cs => do
    let (x, cs) ← entry (skipBlanks cs)
    match skipBlanks cs with
    | c :: rest =>
      if c = ',' then
        let (xs, rest) ← entries? closing entry fuel rest
        return (x :: xs, rest)
      else if c = closing then return ([x], rest)
      else none
    | [] => none

/-- The entries after an opening bracket. -/
def enclosed? (closing : Char) (entry : List Char → Option (α × List Char)) (cs : List Char) :
    Option (List α × List Char) :=
  match skipBlanks cs with
  | c :: rest => if c = closing then some ([], rest) else entries? closing entry cs.length cs
  | [] => none

/-- A name, a colon and a value. -/
def named? (value : List Char → Option (Json × List Char)) (cs : List Char) :
    Option ((String × Json) × List Char) := do
  let (name, cs) ← text? cs
  match skipBlanks cs with
  | ':' :: cs =>
    let (v, cs) ← value (skipBlanks cs)
    return ((name, v), cs)
  | _ => none

/-- A value with at most so many values around one another. -/
def value? (depth : Nat) (cs : List Char) : Option (Json × List Char) :=
  match cs with
  | '[' :: rest =>
    match depth with
    | 0 => none
    | depth + 1 => (enclosed? ']' (value? depth) rest).map fun (xs, rest) => (.list xs, rest)
  | '\x7b' :: rest =>
    match depth with
    | 0 => none
    | depth + 1 =>
      (enclosed? '\x7d' (named? (value? depth)) rest).map fun (ms, rest) => (.ofMembers ms, rest)
  | cs => scalar? cs

/-- The value of a document. -/
def parse? (document : List Char) : Option Json := do
  let (v, rest) ← value? 127 (skipBlanks document)
  if (skipBlanks rest).isEmpty then some v else none

end Json

end QueryGate
