import QueryGate.AllowList
import QueryGate.Rejection
import QueryGate.Relations
import QueryGate.RowLimit

namespace QueryGate

/-!
# Rules

What makes a statement a single query that only reads allowed tables. The rules are tried in
order, and the first that fails gives the rejection:

1. the statement is not empty;
2. its first token is `SELECT` or `WITH`;
3. it contains no semicolon, inside literals neither;
4. it holds no forbidden verb and no forbidden call;
5. it parses as one query, and every table that it reads is allowed.
-/

open Sql

/-- What statements are held to. -/
structure Rules where
  vocabulary : Vocabulary
  /-- Drop semicolons at the end before the third rule. -/
  allowTrailingSemicolon : Bool
  /-- The schema of table names where the allow-list has none. -/
  defaultSchema : Option String
deriving DecidableEq, Repr

/-- What is found about a statement that fails. -/
inductive Refusal where
  | rejected (rejection : Rejection)
  /-- The grammar has no answer about the statement. -/
  | undecided
deriving DecidableEq, Repr

/-! ### Texts that are no tokens -/

/-- What follows the first occurrence of a text, or nothing. -/
def behind (mark : List Char) : List Char → List Char
  | [] => []
  | c :: cs => if mark.isPrefixOf (c :: cs) then (c :: cs).drop mark.length else behind mark cs

/-- A text without the blanks and comments at its start; each comment takes two characters, so
the length of the text is fuel enough. -/
def withoutLeadingComments : Nat → List Char → List Char
  | 0, cs => Text.trimStart cs
  | fuel + 1, cs =>
    match Text.trimStart cs with
    | '-' :: '-' :: rest => withoutLeadingComments fuel (behind ['\n'] rest)
    | '/' :: '*' :: rest => withoutLeadingComments fuel (behind ['*', '/'] rest)
    | rest => rest

/-- The word that a text starts with, as seen without reading tokens. -/
def leadingWord? (cs : List Char) : Option String :=
  match (withoutLeadingComments cs.length cs).takeWhile fun c => c.isAlphanum || c == '_' with
  | [] => none
  | word => some (String.ofList word)

/-- Whether a word starts a query. -/
def startsQuery (word : String) : Bool :=
  Text.asciiEqual word "select" || Text.asciiEqual word "with"

/-- The rejection of a text that cannot be read: a fault at its end does not hide that it breaks
the second or the third rule. -/
def unreadable (cs : List Char) (e : LexicalError) : Rejection :=
  let separated := if cs.contains ';' then Rejection.multiStatement else .malformed e.report
  match leadingWord? cs with
  | some word => if startsQuery word then separated else .notSelect (some word)
  | none => separated

/-! ### The rules -/

namespace Rules

/-- The statement that is looked at: the text without surrounding blanks. -/
def normalized (r : Rules) (cs : List Char) : List Char :=
  if r.allowTrailingSemicolon then withoutTrailingSemicolons cs else Text.trim cs

/-- The second rule. -/
def checkStart (ts : List Token) : Except Rejection Unit :=
  match (significant ts).head? with
  | some t =>
    if t.isKeyword "select" || t.isKeyword "with" then .ok ()
    else .error (.notSelect t.bareWord?)
  | none => .error (.notSelect none)

/-- The fourth rule. -/
def checkWords (r : Rules) (cs : List Char) (ts : List Token) : Except Rejection Unit :=
  match offenceOf r.vocabulary cs ts with
  | .error e => .error (.malformed e.report)
  | .ok (some o) => .error (.ofOffence o)
  | .ok none => .ok ()

/-- The first four rules, and the statement that meets them. -/
def checkShape (r : Rules) (cs : List Char) : Except Rejection (List Char) := do
  let statement := r.normalized cs
  if statement.isEmpty then .error .empty
  match tokens r.vocabulary.dialect statement with
  | .error e => .error (unreadable statement e)
  | .ok ts =>
    checkStart ts
    if statement.contains ';' then .error .multiStatement
    r.checkWords statement ts
    return statement

/-- The query that a text is, if it is one. -/
def parseQuery (d : Dialect) (statement : List Char) : Except Refusal Statement :=
  match parse d statement with
  | .error .stuck => .error .undecided
  | .error e => .error (.rejected (.malformed e.message))
  | .ok [.query q] => .ok (.query q)
  | .ok [_] => .error (.rejected .notAQuery)
  | .ok _ => .error (.rejected .multiStatement)

/-- The first table among these that is not allowed. -/
def outsider? (r : Rules) (allowed : AllowList) (tables : List TableName) : Option TableName :=
  tables.find? fun t => !allowed.resolves t r.defaultSchema

/-- All rules, and the statement that meets them. -/
def check (r : Rules) (allowed : AllowList) (cs : List Char) : Except Refusal (List Char) := do
  let statement ← (r.checkShape cs).mapError .rejected
  if allowed.isEmpty then .error (.rejected .emptyAllowList)
  let query ← parseQuery r.vocabulary.dialect statement
  match r.outsider? allowed query.tables with
  | some table => .error (.rejected (.tableNotAllowed table.text))
  | none => return statement

end Rules

end QueryGate
