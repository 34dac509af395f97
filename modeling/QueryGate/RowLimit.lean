import QueryGate.Event
import QueryGate.Sql.Lexer
import QueryGate.Text.Count

namespace QueryGate

/-!
# Row limits

`explicitLimit` finds the row limit that a statement carries at its top level; `RowLimit.enforce`
rewrites a statement so that it carries one. A limit inside parentheses belongs to a subquery and
counts for nothing here.
-/

open Sql

/-- What to do with an explicit limit above the maximum. -/
inductive LimitPolicy where
  | preserve
  | clamp
  | reject
deriving DecidableEq, Repr, Inhabited

namespace LimitPolicy

/-- The name of a policy. -/
def name : LimitPolicy → String
  | preserve => "preserve"
  | clamp => "clamp"
  | reject => "reject"

/-- The policy with this name. -/
def ofName? (s : String) : Option LimitPolicy :=
  [preserve, clamp, reject].find? fun p => p.name == s

end LimitPolicy

/-! ### Finding the cap -/

/-- The row limit at the top level of a statement. -/
inductive RowCap where
  | absent
  /-- A literal count; `position` is the index of its token, if it is written out. -/
  | rows (count : Nat) (position : Option Nat)
  /-- A limit that is no literal count. -/
  | unbounded
deriving DecidableEq, Repr

/-- Significant tokens with their indices. -/
def significantTokens (ts : List Token) : List (Token × Nat) :=
  ts.zipIdx.filter fun p => !p.1.isTrivia

/-- What follows `LIMIT`: a count alone, a count before `OFFSET`, or two counts with a comma. -/
def limitOperand (d : Dialect) : List (Token × Nat) → RowCap
  | (.number text _, i) :: rest =>
    match Text.readCount? text with
    | none => .unbounded
    | some count =>
      match rest with
      | [] => .rows count (some i)
      | (.symbol ",", _) :: [(.number second _, j)] =>
        if d.limitComma then
          match Text.readCount? second with
          | some count => .rows count (some j)
          | none => .unbounded
        else .unbounded
      | (t, _) :: _ => if t.isKeyword "offset" then .rows count (some i) else .unbounded
  | _ => .unbounded

/-- What follows the count of `FETCH`. -/
def fetchUnit (cap : RowCap) : List (Token × Nat) → RowCap
  | (rowWord, _) :: (only, _) :: _ =>
    if (rowWord.isKeyword "row" || rowWord.isKeyword "rows") && only.isKeyword "only" then cap
    else .unbounded
  | _ => .unbounded

/-- What follows `FETCH`: `FIRST` or `NEXT`, a count or none for one row, `ROW` or `ROWS`, and
`ONLY`. -/
def fetchOperand : List (Token × Nat) → RowCap
  | (first, _) :: rest =>
    if first.isKeyword "first" || first.isKeyword "next" then
      match rest with
      | (.number text _, i) :: after =>
        match Text.readCount? text with
        | some count => fetchUnit (.rows count (some i)) after
        | none => fetchUnit (.rows 1 none) rest
      | _ => fetchUnit (.rows 1 none) rest
    else .unbounded
  | [] => .unbounded

/-- The cap among significant tokens inside `depth` parentheses. -/
def capFrom (d : Dialect) : Nat → List (Token × Nat) → RowCap
  | _, [] => .absent
  | depth, (t, _) :: rest =>
    if t = .symbol "(" then capFrom d (depth + 1) rest
    else if t = .symbol ")" then capFrom d (depth - 1) rest
    else if depth > 0 then capFrom d depth rest
    else if t.isKeyword "limit" then limitOperand d rest
    else if t.isKeyword "fetch" then fetchOperand rest
    else capFrom d depth rest

/-- The cap among the tokens of a statement. -/
def findCap (d : Dialect) (ts : List Token) : RowCap := capFrom d 0 (significantTokens ts)

/-- A text without its surrounding blanks and the semicolons at its end. -/
def withoutTrailingSemicolons (cs : List Char) : List Char :=
  ((Text.trimStart cs).reverse.dropWhile fun c => Text.isBlank c || c == ';').reverse

/-- The row limit that a statement carries, as seen from outside. -/
inductive ExplicitLimit where
  | absent
  | rows (count : Nat)
  | unbounded
deriving DecidableEq, Repr

/-- The limit without the place of its count. -/
def RowCap.limit : RowCap → ExplicitLimit
  | absent => .absent
  | rows count _ => .rows count
  | unbounded => .unbounded

/-- The explicit limit of a statement; a text that cannot be read has no bound. -/
def explicitLimit (d : Dialect) (cs : List Char) : ExplicitLimit :=
  match tokens d (withoutTrailingSemicolons cs) with
  | .ok ts => (findCap d ts).limit
  | .error _ => .unbounded

/-! ### Enforcing one -/

namespace RowLimit

/-- A line feed, if the text before it ends inside a line comment. -/
def lineEnd (inComment : Bool) : List Char := if inComment then ['\n'] else []

/-- The statement as a derived table with a limit of its own. -/
def wrap (statement : List Char) (maxRows : Nat) (inComment : Bool) : List Char :=
  "SELECT * FROM (".toList ++ statement ++ lineEnd inComment ++
    ") AS guarded_result LIMIT ".toList ++ (toString maxRows).toList

/-- The statement with a limit after it. -/
def append (statement : List Char) (maxRows : Nat) (inComment : Bool) : List Char :=
  statement ++ (if inComment then ['\n'] else [' ']) ++ "LIMIT ".toList ++
    (toString maxRows).toList

/-- The statement with the number that a span covers replaced by another one. -/
def replaceNumber? (statement : List Char) (span : Span) (written : String) (count : Nat) :
    Option (List Char) := do
  let (start, stop) ← byteRange? statement span
  let (before, rest) ← splitAtByte? start statement
  let (number, behind) ← splitAtByte? (stop - start) rest
  if number = written.toList then some (before ++ (toString count).toList ++ behind) else none

/-- The number that the token at a position spells, and its span. -/
def numberAt? (ts : List Placed) (position : Nat) : Option (String × Span) :=
  match ts[position]? with
  | some ⟨.number text long, span⟩ => some (Token.numberText text long, span)
  | _ => none

/-- Rewrites a statement so that it returns a bounded number of rows: without a limit, one is
appended; a limit without a bound is wrapped into a limited query; an explicit count stays, but
under `clamp` a count above the maximum becomes the maximum. -/
def enforce (d : Dialect) (policy : LimitPolicy) (maxRows : Nat) (cs : List Char) :
    Logged (List Char) :=
  let maxRows := max 1 maxRows
  let statement := withoutTrailingSemicolons cs
  match scan d statement with
  | .error e => do
    .report ⟨.warn, "Row-limit enforcement on untokenizable input; wrapping",
      [("error", .text e.report)]⟩
    return wrap statement maxRows true
  | .ok placed =>
    let ts := placed.map Placed.token
    let inComment := endsInLineComment ts
    match findCap d ts with
    | .absent => pure (append statement maxRows inComment)
    | .unbounded => pure (wrap statement maxRows inComment)
    | .rows _ none => pure statement
    | .rows count (some position) =>
      if policy = .clamp ∧ count > maxRows then
        match numberAt? placed position >>= fun (written, span) =>
            replaceNumber? statement span written maxRows with
        | some clamped => do
          .report ⟨.debug, "Clamping explicit row limit",
            [("requested", .count count), ("max_rows", .count maxRows)]⟩
          return clamped
        | none => pure (wrap statement maxRows inComment)
      else pure statement

end RowLimit

end QueryGate
