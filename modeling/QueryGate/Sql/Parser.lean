import QueryGate.Sql.Lexer
import QueryGate.Sql.Parser.Change

namespace QueryGate.Sql

/-!
# Parsing

Statements from text. Every statement, query and expression spends one level, and there are
`Parser.levels` of them; so a text that nests deeper has no parse.
-/

namespace Parser

/-- How deeply statements, queries and expressions may nest. -/
def levels : Nat := 50

/-- The parsers of what is nested, with this many levels to spend. -/
def env (d : Dialect) : Nat → Env
  | 0 => ⟨d, throw .tooDeep, fun _ => throw .tooDeep⟩
  | n + 1 => ⟨d, queryHere (env d n), fun power => termBody power (env d n)⟩

/-- A statement, with at least one level to spend on it. -/
def statement : Parser Statement := do
  if ← either (atAny ["SELECT", "WITH", "VALUES", "FROM"]) (atSymbol "(") then
    return .query (← query)
  else match ← changeVerb? with
    | some kind => return .change kind (← changeReads kind)
    | none => misfit

/-- Drops semicolons. -/
def semicolons : Nat → Parser Unit
  | 0 => pure ()
  | fuel + 1 => do
    if ← symbol ";" then semicolons fuel

/-- Statements with semicolons between them, to the end of the text or to a bare `END` in the
place of a semicolon. -/
def statementList : Nat → Parser (List Statement)
  | 0 => misfit
  | fuel + 1 => do
    withFuel semicolons
    if (← peek).isNone then return []
    else
      let s ← statement
      if ← either (return (← peek).isNone) (atKeyword "END") then return [s]
      else
        ensure (← atSymbol ";")
        return s :: (← statementList fuel)

/-- The statements of a token list. -/
def parseTokens (d : Dialect) (ts : List Token) : Except Halt (List Statement) := do
  let (statements, _) ← (withFuel statementList) (env d (levels - 1)) (lexemes false ts)
  return statements

end Parser

/-- Why a text has no parse: its tokens do not fit the grammar, or the grammar has no answer. -/
inductive ParseError where
  | ungrammatical
  | stuck
deriving DecidableEq, Repr

/-- The text of the error; it does not say where the tokens fail to fit. -/
def ParseError.message (_ : ParseError) : String := "sql parser error"

/-- The error as reported for a statement. -/
def ParseError.report (e : ParseError) : String := "failed to parse SQL: " ++ e.message

/-- The statements of a text. -/
def parse (d : Dialect) (sql : List Char) : Except ParseError (List Statement) :=
  match tokens d sql with
  | .error _ => .error .ungrammatical
  | .ok ts =>
    match Parser.parseTokens d ts with
    | .ok statements => .ok statements
    | .error .stuck => .error .stuck
    | .error _ => .error .ungrammatical

end QueryGate.Sql
