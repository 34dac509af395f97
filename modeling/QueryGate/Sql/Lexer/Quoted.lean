import QueryGate.Dialect
import QueryGate.Text.Alphanumeric
import QueryGate.Sql.Lexer.Fault

namespace QueryGate.Sql.Lexer

/-!
# Quoted text

Quoted identifiers, string literals in all their forms, and text between dollar signs. Each
reader starts behind the opening quote and gives the content and what follows the closing one.
-/

/-- Text up to a closing quote; a doubled quote stands for itself. -/
def quotedText? (quote : Char) : List Char → Option (List Char × List Char)
  | [] => none
  | c :: cs =>
    if c = quote then
      match cs with
      | d :: ds =>
        if d = quote then (quotedText? quote ds).map fun (t, r) => (quote :: t, r)
        else some ([], d :: ds)
      | [] => some ([], [])
    else (quotedText? quote cs).map fun (t, r) => (c :: t, r)

/-- A quoted identifier whose opening quote is the first of these characters. -/
def quotedIdentifier (start close : Char) (cs : List Char) : Step :=
  match quotedText? close cs.tail with
  | some (text, rest) => .ok (.word (String.ofList text) (some start), rest)
  | none => .error ⟨"Expected close delimiter '" ++ close.toString ++ "' before EOF.", cs⟩

/-- The character that a backslash and this character stand for. -/
def backslashed : Char → Char
  | '0' => '\x00'
  | 'a' => '\x07'
  | 'b' => '\x08'
  | 'f' => '\x0c'
  | 'n' => '\n'
  | 'r' => '\r'
  | 't' => '\t'
  | 'Z' => '\x1a'
  | c => c

/-- The content of a string literal up to its closing quote. With `escapes`, a backslash takes
the next character with it, and the two wildcards of `LIKE` keep their backslash. -/
def literalText? (quote : Char) (escapes : Bool) : List Char → Option (List Char × List Char)
  | [] => none
  | c :: cs =>
    if c = quote then
      match cs with
      | d :: ds =>
        if d = quote then (literalText? quote escapes ds).map fun (t, r) => (quote :: t, r)
        else some ([], d :: ds)
      | [] => some ([], [])
    else if c = '\\' && escapes then
      match cs with
      | d :: ds =>
        (literalText? quote escapes ds).map fun (t, r) =>
          (if d = '%' || d = '_' then c :: d :: t else backslashed d :: t, r)
      | [] => none
    else (literalText? quote escapes cs).map fun (t, r) => (c :: t, r)

/-- A string literal whose opening quote is the first of these characters. -/
def stringLiteral (kind : LiteralKind) (quote : Char) (escapes : Bool) (cs : List Char) : Step :=
  match literalText? quote escapes cs.tail with
  | some (text, rest) => .ok (.literal kind (String.ofList text), rest)
  | none => .error ⟨"Unterminated string literal", cs⟩

/-! ### Escapes by number -/

/-- The value of a digit in bases up to sixteen. -/
def digitValue? (base : Nat) (c : Char) : Option Nat :=
  let v? :=
    if c.isDigit then some (c.toNat - '0'.toNat)
    else if 'a' ≤ c && c ≤ 'f' then some (c.toNat - 'a'.toNat + 10)
    else if 'A' ≤ c && c ≤ 'F' then some (c.toNat - 'A'.toNat + 10)
    else none
  v?.filter (· < base)

/-- The value of a text of digits, if it has any and holds nothing else. -/
def digitsValue? (base : Nat) (cs : List Char) : Option Nat :=
  if cs.isEmpty then none
  else cs.foldl (fun acc c => do some ((← acc) * base + (← digitValue? base c))) (some 0)

/-- As `digitsValue?`, with an optional plus sign before the digits. -/
def signedDigitsValue? (base : Nat) : List Char → Option Nat
  | '+' :: cs => digitsValue? base cs
  | cs => digitsValue? base cs

/-- The character with this code point, if there is one. -/
def charOfCode? (n : Nat) : Option Char :=
  if n.isValidChar then some (Char.ofNat n) else none

/-- The ASCII character in the low byte of a number. -/
def charOfByte? (n : Nat) : Option Char :=
  if n % 256 ≤ 127 then some (Char.ofNat (n % 256)) else none

/-- The first digits of a text, at most `most`, and the rest. -/
def leadingDigits (base : Nat) : Nat → List Char → List Char × List Char
  | 0, cs => ([], cs)
  | _ + 1, [] => ([], [])
  | n + 1, c :: cs =>
    if (digitValue? base c).isSome then
      let (ds, rest) := leadingDigits base n cs
      (c :: ds, rest)
    else ([], c :: cs)

/-- A character given by exactly `n` hexadecimal digits. -/
def codePointEscape? (n : Nat) (cs : List Char) : Option (Char × List Char) :=
  if cs.length < n then none
  else do
    let c ← charOfCode? (← signedDigitsValue? 16 (cs.take n))
    some (c, cs.drop n)

/-- The character that a backslash and the following text stand for in `E'…'`: a control
character, a code point, a byte, or the next character itself. NUL is refused. -/
def escape? : List Char → Option (Char × List Char)
  | [] => none
  | c :: cs => do
    let (d, rest) ← match c with
      | 'b' => some ('\x08', cs)
      | 'f' => some ('\x0c', cs)
      | 'n' => some ('\n', cs)
      | 'r' => some ('\r', cs)
      | 't' => some ('\t', cs)
      | 'u' => codePointEscape? 4 cs
      | 'U' => codePointEscape? 8 cs
      | 'x' =>
        let (ds, rest) := leadingDigits 16 2 cs
        if ds.isEmpty then some ('x', cs)
        else do some (← charOfByte? (← digitsValue? 16 ds), rest)
      | c =>
        if (digitValue? 8 c).isSome then
          let (ds, rest) := leadingDigits 8 2 cs
          do some (← charOfByte? (← digitsValue? 8 (c :: ds)), rest)
        else some (c, cs)
    if d = '\x00' then none else some (d, rest)

/-- The content of `E'…'`. The fuel bounds the number of characters read. -/
def escapedText? : Nat → List Char → Option (List Char × List Char)
  | 0, _ => none
  | _ + 1, [] => none
  | n + 1, '\x27' :: '\x27' :: cs => (escapedText? n cs).map fun (t, r) => ('\x27' :: t, r)
  | _ + 1, '\x27' :: cs => some ([], cs)
  | n + 1, '\\' :: cs => do
    let (c, rest) ← escape? cs
    (escapedText? n rest).map fun (t, r) => (c :: t, r)
  | n + 1, c :: cs => (escapedText? n cs).map fun (t, r) => (c :: t, r)

/-- `E'…'`, from the letter on. -/
def escapedLiteral (cs : List Char) : Step :=
  match escapedText? (cs.length + 1) (cs.drop 2) with
  | some (text, rest) => .ok (.literal .escaped (String.ofList text), rest)
  | none => .error ⟨"Unterminated encoded string literal", cs⟩

/-- A code point written with `left` more hexadecimal digits, `value` being read already. -/
def hexCharacter : Nat → Nat → List Char → Except Fault (Char × List Char)
  | 0, value, cs =>
    match charOfCode? value with
    | some c => .ok (c, cs)
    | none =>
      .error ⟨"Invalid unicode character: " ++ String.ofList (Nat.toDigits 16 value), cs⟩
  | _ + 1, _, [] =>
    .error ⟨"Unexpected EOF while parsing hex digit in escaped unicode string.", []⟩
  | left + 1, value, c :: cs =>
    match digitValue? 16 c with
    | some v => hexCharacter left (value * 16 + v) cs
    | none => .error ⟨"Invalid hex digit in escaped unicode string: " ++ c.toString, cs⟩

/-- The content of `U&'…'`. The fuel bounds the number of characters read. -/
def unicodeText : Nat → List Char → Except Fault (List Char × List Char)
  | 0, cs => .error ⟨"Unterminated unicode encoded string literal", cs⟩
  | _ + 1, [] => .error ⟨"Unterminated unicode encoded string literal", []⟩
  | n + 1, '\x27' :: '\x27' :: cs => do
    let (t, r) ← unicodeText n cs
    return ('\x27' :: t, r)
  | _ + 1, '\x27' :: cs => .ok ([], cs)
  | n + 1, '\\' :: '\\' :: cs => do
    let (t, r) ← unicodeText n cs
    return ('\\' :: t, r)
  | n + 1, '\\' :: '+' :: cs => do
    let (c, rest) ← hexCharacter 6 0 cs
    let (t, r) ← unicodeText n rest
    return (c :: t, r)
  | n + 1, '\\' :: cs => do
    let (c, rest) ← hexCharacter 4 0 cs
    let (t, r) ← unicodeText n rest
    return (c :: t, r)
  | n + 1, c :: cs => do
    let (t, r) ← unicodeText n cs
    return (c :: t, r)

/-- `U&'…'`, from the letter on. -/
def unicodeLiteral (cs : List Char) : Step := do
  let (text, rest) ← unicodeText (cs.length + 1) (cs.drop 3)
  return (.literal .unicode (String.ofList text), rest)

/-! ### Dollar signs -/

/-- Text up to the first occurrence of a closing mark. -/
def textUntil? (close : List Char) : List Char → Option (List Char × List Char)
  | [] => none
  | c :: cs =>
    if close.isPrefixOf (c :: cs) then some ([], (c :: cs).drop close.length)
    else (textUntil? close cs).map fun (t, r) => (c :: t, r)

/-- A dollar sign and a name, where the name may hold dollar signs. -/
def dollarPlaceholder (cs : List Char) : Token × List Char :=
  let name := cs.takeWhile fun c => Text.isAlphanumeric c || c == '_' || c == '$'
  (.placeholder (String.ofList ('$' :: name)), cs.drop name.length)

/-- What follows a dollar sign: `$…$$`, `tag$…$tag$`, or the name of a placeholder. -/
def dollarQuoted (cs : List Char) : Step :=
  let name := cs.takeWhile fun c => Text.isAlphanumeric c || c == '_'
  match cs.drop name.length with
  | '$' :: body =>
    match textUntil? ('$' :: name ++ ['$']) body with
    | some (text, rest) => .ok (.literal .dollar (String.ofList text), rest)
    | none =>
      if name.isEmpty then .error ⟨"Unterminated dollar-quoted string", []⟩
      else .error ⟨"Unterminated dollar-quoted, expected $", []⟩
  | rest => .ok (.placeholder (String.ofList ('$' :: name)), rest)

end QueryGate.Sql.Lexer
