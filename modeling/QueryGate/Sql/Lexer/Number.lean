import QueryGate.Dialect
import QueryGate.Sql.Lexer.Fault

namespace QueryGate.Sql.Lexer

/-!
# Numbers and periods

Digits, at most one point, an exponent, a suffix `L`; a hexadecimal literal after `0x`; a lone
point; and, where digits may start a word, words that do.
-/

/-- A hexadecimal digit. -/
def isHexDigit (c : Char) : Bool :=
  c.isDigit || ('a' ≤ c && c ≤ 'f') || ('A' ≤ c && c ≤ 'F')

/-- The longest run of digits at the front of a text, and the rest. A separator counts if a
hexadecimal digit follows it. -/
def digitRun (separators : Bool) (digit : Char → Bool) : List Char → List Char × List Char
  | [] => ([], [])
  | c :: cs =>
    if digit c || (separators && c == '_' && cs.head?.any isHexDigit) then
      let (ds, rest) := digitRun separators digit cs
      (c :: ds, rest)
    else ([], c :: cs)

/-- An exponent at the front of a text: nothing, a mark without digits, or mark and digits. -/
inductive Exponent where
  | none
  | markOnly
  | digits (text rest : List Char)

/-- Reads `e`, an optional sign and digits. -/
def exponentOf : List Char → Exponent
  | [] => .none
  | e :: cs =>
    if e = 'e' || e = 'E' then
      let (sign, tail) := match cs with
        | '+' :: t => (['+'], t)
        | '-' :: t => (['-'], t)
        | t => ([], t)
      let ds := tail.takeWhile Char.isDigit
      if ds.isEmpty then .markOnly else .digits (e :: sign ++ ds) (tail.drop ds.length)
    else .none

/-- A number with its optional suffix. -/
def numberToken (text rest : List Char) : Token × List Char :=
  match rest with
  | 'L' :: r => (.number (String.ofList text) true, r)
  | r => (.number (String.ofList text) false, r)

/-- Whether the previous token is a word. -/
def afterWord : Option Token → Bool
  | some (.word _ _) => true
  | _ => false

/-- Reads what starts with digits or a point: integral digits are `whole`, and `rest` follows
them. -/
def decimalToken (d : Dialect) (previous : Option Token) (whole rest : List Char) :
    Token × List Char :=
  let (mantissa, rest) := match rest with
    | '.' :: r => (whole ++ ['.'], r)
    | r => (whole, r)
  if mantissa == ['.'] && d.numericWords && afterWord previous then (.symbol ".", rest)
  else
    let (fraction, rest) := digitRun d.digitSeparators Char.isDigit rest
    let mantissa := mantissa ++ fraction
    if mantissa == ['.'] then (.symbol ".", rest)
    else match exponentOf rest with
      | .none =>
        let tail := if d.numericWords then rest.takeWhile d.continuesWord else []
        if tail.isEmpty then numberToken mantissa rest
        else (.word (String.ofList (mantissa ++ tail)) none, rest.drop tail.length)
      | .markOnly =>
        if d.numericWords && previous == some (.symbol ".") then
          (.word (String.ofList mantissa) none, rest)
        else numberToken mantissa rest
      | .digits e rest =>
        if d.numericWords && previous == some (.symbol ".") then
          (.word (String.ofList (mantissa ++ e)) none, rest)
        else numberToken (mantissa ++ e) rest

/-- Reads what starts with a digit or a point. -/
def numberOrPeriod (d : Dialect) (previous : Option Token) (cs : List Char) : Step :=
  match cs with
  | '.' :: '_' :: _ =>
    if afterWord previous then .ok (.symbol ".", cs.tail)
    else .error ⟨"Unexpected character '_'", cs⟩
  | _ =>
    let (whole, rest) := digitRun d.digitSeparators Char.isDigit cs
    match rest with
    | 'x' :: r =>
      if whole == ['0'] then
        let (hex, r) := digitRun d.digitSeparators isHexDigit r
        .ok (.literal .hex (String.ofList hex), r)
      else .ok (decimalToken d previous whole rest)
    | _ => .ok (decimalToken d previous whole rest)

end QueryGate.Sql.Lexer
