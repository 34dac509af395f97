namespace QueryGate.Yaml

/-!
# Places in a document

A cursor is the rest of a document and the place where it starts. Line breaks are read as one
line feed each; the two Unicode separators stay what they are.
-/

/-- Characters that end a line. -/
def isBreak (c : Char) : Bool :=
  c == '\n' || c == '\r' || [0x85, 0x2028, 0x2029].contains c.toNat

/-- Spaces and tabs. -/
def isBlank (c : Char) : Bool := c == ' ' || c == '\t'

/-- What may stand between two words. -/
def isGap (c : Char) : Bool := isBlank c || isBreak c

/-- Whether a text is empty or starts with a blank or a line break. -/
def startsWithGap : List Char → Bool
  | [] => true
  | c :: _ => isGap c

/-- Whether a text is at the end of a line. -/
def atLineEnd : List Char → Bool
  | [] => true
  | c :: _ => isBreak c

/-- Characters that a document may contain. -/
def isPrintable (c : Char) : Bool :=
  let n := c.toNat
  c == '\t' || c == '\n' || c == '\r' || n == 0x85 || (0x20 ≤ n && n ≤ 0x7e) ||
    (0xa0 ≤ n && n ≤ 0xfffd) || 0x10000 ≤ n

/-- The rest of a document and its place; lines and columns count from zero. -/
structure Cursor where
  rest : List Char
  offset : Nat
  line : Nat
  column : Nat
deriving DecidableEq, Repr

namespace Cursor

/-- The start of a document. -/
def start (cs : List Char) : Cursor := ⟨cs, 0, 0, 0⟩

/-- The cursor after so many characters of the line. -/
def skip (n : Nat) (c : Cursor) : Cursor :=
  { c with rest := c.rest.drop n, offset := c.offset + n, column := c.column + n }

/-- The cursor after the characters of the line that have a property. -/
def skipWhile (p : Char → Bool) (c : Cursor) : Cursor := c.skip (c.rest.takeWhile p).length

/-- The cursor at the start of the next line, `n` characters on. -/
def newLine (n : Nat) (c : Cursor) : Cursor :=
  ⟨c.rest.drop n, c.offset + n, c.line + 1, 0⟩

/-- The line break at the cursor, and the cursor behind it. -/
def lineBreak? (c : Cursor) : Option (Char × Cursor) :=
  match c.rest with
  | '\r' :: '\n' :: _ => some ('\n', c.newLine 2)
  | b :: _ =>
    if [0x2028, 0x2029].contains b.toNat then some (b, c.newLine 1)
    else if isBreak b then some ('\n', c.newLine 1)
    else none
  | [] => none

/-- Whether the cursor is at a line that starts with three marks and nothing attached to them. -/
def atMark (c : Cursor) (mark : Char) : Bool :=
  c.column == 0 &&
    match c.rest with
    | a :: b :: d :: rest => a == mark && b == mark && d == mark && startsWithGap rest
    | _ => false

/-- Whether the cursor is at a line that starts or ends a document. -/
def atDocumentMark (c : Cursor) : Bool := c.atMark '-' || c.atMark '.'

end Cursor

end QueryGate.Yaml
