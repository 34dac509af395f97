import QueryGate.Text.Blank
import QueryGate.Text.Case

namespace QueryGate

/-!
# SQL dialects

The three dialects, the names they go by, and what their words are made of. Everything else
that differs between dialects is a yes or no here, named for the feature.
-/

/-- The dialect a statement is written in. -/
inductive Dialect where
  | postgresql
  | mysql
  | sqlite
deriving DecidableEq, Repr, Inhabited

/-- A dialect name that is none of the known ones. -/
structure UnknownDialect where
  name : String
deriving DecidableEq, Repr

/-- The text of the error. -/
def UnknownDialect.message (e : UnknownDialect) : String :=
  "unknown SQL dialect '" ++ e.name ++ "' (expected postgresql, mysql or sqlite)"

namespace Dialect

/-- The canonical name. -/
def name : Dialect → String
  | postgresql => "postgresql"
  | mysql => "mysql"
  | sqlite => "sqlite"

/-- The dialect with this name or alias, spelled exactly. -/
def ofName? (s : String) : Option Dialect :=
  if s ∈ ["postgresql", "postgres", "pg"] then some postgresql
  else if s = "mysql" then some mysql
  else if s ∈ ["sqlite", "sqlite3"] then some sqlite
  else none

/-- Reads a dialect name, whatever its ASCII case and surrounding blanks. -/
def read (s : String) : Except UnknownDialect Dialect :=
  let name := Text.asciiLower (Text.trimmed s)
  match ofName? name with
  | some d => .ok d
  | none => .error ⟨name⟩

/-! ### Words -/

/-- Characters that start an unquoted word. -/
def startsWord (d : Dialect) (c : Char) : Bool :=
  match d with
  | postgresql => c.isAlpha || c == '_' || c.toNat ≥ 0x80
  | mysql => c.isAlpha || c == '_' || c == '$' || c == '@' || c.toNat ≥ 0x80
  | sqlite => c.isAlpha || c == '_' || (0x7f ≤ c.toNat && c.toNat ≤ 0xffff)

/-- Characters that continue an unquoted word. -/
def continuesWord (d : Dialect) (c : Char) : Bool :=
  d.startsWord c || c.isDigit || (d == postgresql && c == '$')

/-- The closing quote of a quoted identifier that starts with this character. -/
def identifierQuote? (d : Dialect) (c : Char) : Option Char :=
  match d with
  | postgresql => if c = '"' then some '"' else none
  | mysql => if c = '\x60' then some '\x60' else none
  | sqlite =>
    if c = '"' || c = '\x60' then some c
    else if c = '[' then some ']'
    else none

/-- Digits may start a word. -/
def numericWords (d : Dialect) : Bool := d == mysql

/-! ### Literals and comments -/

/-- A backslash escapes the next character of a string literal. -/
def backslashEscapes (d : Dialect) : Bool := d == mysql

/-- `B'…'` is a bit string. -/
def bitLiterals (d : Dialect) : Bool := d != sqlite

/-- `E'…'` and `U&'…'` are string literals with escapes. -/
def escapeLiterals (d : Dialect) : Bool := d == postgresql

/-- Adjacent string literals are one literal. -/
def joinsLiterals (d : Dialect) : Bool := d == mysql

/-- Single underscores may separate the digits of a number. -/
def digitSeparators (d : Dialect) : Bool := d == postgresql

/-- `$` only ever starts a placeholder, never a dollar-quoted string. -/
def dollarPlaceholders (d : Dialect) : Bool := d == sqlite

/-- Block comments nest. -/
def nestedComments (d : Dialect) : Bool := d == postgresql

/-- `#` starts a line comment. -/
def hashComments (d : Dialect) : Bool := d == mysql

/-- `--` starts a comment only if a space follows. -/
def dashCommentsNeedSpace (d : Dialect) : Bool := d == mysql

/-- A carriage return ends a line comment. -/
def returnEndsComment (d : Dialect) : Bool := d == postgresql

/-- The server runs the text of comments that begin with `!`. -/
def runsBangComments (d : Dialect) : Bool := d == mysql

/-! ### Operators and clauses -/

/-- Runs of operator characters form operators of their own, the geometric ones included. -/
def customOperators (d : Dialect) : Bool := d == postgresql

/-- `LIMIT skip, count` is read as well as `LIMIT count OFFSET skip`. -/
def limitComma (d : Dialect) : Bool := d != postgresql

end Dialect

end QueryGate
