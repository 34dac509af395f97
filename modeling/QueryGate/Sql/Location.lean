namespace QueryGate.Sql

/-!
# Places in a text

A location is a line and a column, both from one; a line feed ends a line and any other
character takes one column. `byteOffset?` leads back from a location to the bytes before it.
-/

/-- A place between two characters, named by the character after it. -/
structure Location where
  line : Nat
  column : Nat
deriving DecidableEq, Repr, Inhabited

namespace Location

/-- The start of a text. -/
def origin : Location := ⟨1, 1⟩

/-- The place after one more character. -/
def next (l : Location) (c : Char) : Location :=
  if c = '\n' then ⟨l.line + 1, 1⟩ else ⟨l.line, l.column + 1⟩

/-- The place after a text that starts here. -/
def after (l : Location) (cs : List Char) : Location := cs.foldl next l

end Location

/-- The text between two places. -/
structure Span where
  start : Location
  stop : Location
deriving DecidableEq, Repr, Inhabited

/-- How many bytes a text takes. -/
def byteLength (cs : List Char) : Nat := cs.foldr (fun c n => c.utf8Size + n) 0

/-- The text from the start of line `n` on (lines from one), if it has that line. -/
def fromLine? : Nat → List Char → Option (List Char)
  | 0, _ => none
  | 1, cs => some cs
  | _ + 2, [] => none
  | n + 2, c :: cs => if c = '\n' then fromLine? (n + 1) cs else fromLine? (n + 2) cs

/-- The number of bytes before a location. The column may run past the end of its line, but not
past the end of the text. -/
def byteOffset? (cs : List Char) (l : Location) : Option Nat :=
  if l.column = 0 then none
  else match fromLine? l.line cs with
    | none => none
    | some line =>
      if l.column - 1 ≤ line.length then
        some (byteLength cs - byteLength line + byteLength (line.take (l.column - 1)))
      else none

/-- The bytes that a span covers. -/
def byteRange? (cs : List Char) (s : Span) : Option (Nat × Nat) :=
  match byteOffset? cs s.start, byteOffset? cs s.stop with
  | some a, some b => if a ≤ b then some (a, b) else none
  | _, _ => none

/-- Splits a text after a number of bytes, if that is a boundary between characters. -/
def splitAtByte? : Nat → List Char → Option (List Char × List Char)
  | 0, cs => some ([], cs)
  | _ + 1, [] => none
  | n + 1, c :: cs =>
    if c.utf8Size ≤ n + 1 then
      (splitAtByte? (n + 1 - c.utf8Size) cs).map fun (a, b) => (c :: a, b)
    else none

end QueryGate.Sql
