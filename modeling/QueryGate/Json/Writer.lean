import QueryGate.Json
import QueryGate.Number.Shortest

namespace QueryGate

/-!
# Writing JSON

`Json.compact` writes a value without blanks, `Json.pretty` with one member or item a line. Doubles
are written with the fewest digits that read back, and always with a point or an exponent.
-/

namespace Json

/-! ### Texts -/

/-- The escape of a character in a text, if it needs one. -/
def escape? (c : Char) : Option String :=
  match c with
  | '"' => some "\\\""
  | '\\' => some "\\\\"
  | '\n' => some "\\n"
  | '\r' => some "\\r"
  | '\t' => some "\\t"
  | '\x08' => some "\\b"
  | '\x0c' => some "\\f"
  | c =>
    if c.toNat < 0x20 then
      some ("\\u" ++ String.ofList ((Nat.toDigits 16 c.toNat).leftpad 4 '0'))
    else none

/-- A text in quotes. -/
def quoted (s : String) : String :=
  "\"" ++ String.join (s.toList.map fun c => (escape? c).getD c.toString) ++ "\""

/-! ### Numbers -/

/-- Digits times a power of ten. The point stands among or beside the digits from `1e-5` up to
below `1e16`; other numbers have one digit before the point, and an exponent. -/
def decimalText (d : Decimal) : String :=
  let digits := Nat.toDigits 10 d.digits
  let count : Int := digits.length
  let point := count + d.exponent
  let zeros (n : Int) : List Char := .replicate n.toNat '0'
  if 0 ≤ d.exponent ∧ point ≤ 16 then String.ofList (digits ++ zeros d.exponent) ++ ".0"
  else if 0 < point ∧ point ≤ 16 then
    String.ofList (digits.take point.toNat ++ '.' :: digits.drop point.toNat)
  else if -5 < point ∧ point ≤ 0 then "0." ++ String.ofList (zeros (-point) ++ digits)
  else
    let fraction := match digits.drop 1 with
      | [] => []
      | rest => '.' :: rest
    String.ofList (digits.take 1 ++ fraction) ++ "e" ++ toString (point - 1)

/-- A double. -/
def doubleText (x : Double) : String :=
  let sign := if x.negative then "-" else ""
  sign ++ if x.magnitude.isZero then "0.0" else decimalText x.shortest

/-! ### Values -/

/-- A value without blanks. -/
def compact : Json → String
  | .null => "null"
  | .bool b => if b then "true" else "false"
  | .int n => toString n
  | .double x => doubleText x
  | .text s => quoted s
  | .list items => "[" ++ ",".intercalate (items.attach.map fun ⟨v, _⟩ => v.compact) ++ "]"
  | .object members =>
    "\x7b" ++ ",".intercalate (members.attach.map fun ⟨(n, v), _⟩ => quoted n ++ ":" ++ v.compact) ++
      "\x7d"
termination_by v => sizeOf v
decreasing_by
  · have := List.sizeOf_lt_of_mem ‹_›; simp; omega
  · have := List.sizeOf_lt_of_mem ‹_›; simp at this ⊢; omega

/-- Lines between brackets, set in by two blanks more than the closing bracket; on one line if
there are none. -/
def block (margin : String) (opening closing : String) (lines : List String) : String :=
  if lines.isEmpty then opening ++ closing
  else
    let inner := "\n" ++ margin ++ "  "
    opening ++ inner ++ ("," ++ inner).intercalate lines ++ "\n" ++ margin ++ closing

/-- A value with one member or item a line, in lines that start with a margin. -/
def prettyWithin (margin : String) : Json → String
  | .list items =>
    block margin "[" "]" (items.attach.map fun ⟨v, _⟩ => v.prettyWithin (margin ++ "  "))
  | .object members =>
    block margin "\x7b" "\x7d" (members.attach.map fun ⟨(n, v), _⟩ =>
      quoted n ++ ": " ++ v.prettyWithin (margin ++ "  "))
  | v => v.compact
termination_by v => sizeOf v
decreasing_by
  · have := List.sizeOf_lt_of_mem ‹_›; simp; omega
  · have := List.sizeOf_lt_of_mem ‹_›; simp at this ⊢; omega

/-- A value with one member or item a line. -/
def pretty (v : Json) : String := v.prettyWithin ""

end Json

end QueryGate
