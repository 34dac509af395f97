import QueryGate.Sql.Token

namespace QueryGate.Sql

/-!
# Lexical errors
-/

/-- A fault while reading one token: what is wrong, and the text that was left at that point. -/
structure Lexer.Fault where
  message : String
  rest : List Char
deriving DecidableEq, Repr

/-- Reading one token from the front of a text gives the token and the text after it. -/
abbrev Lexer.Step := Except Lexer.Fault (Token × List Char)

/-- A text that is no sequence of tokens, and where it fails. -/
structure LexicalError where
  message : String
  location : Location
deriving DecidableEq, Repr

/-- The text of the error. -/
def LexicalError.text (e : LexicalError) : String :=
  e.message ++ " at Line: " ++ toString e.location.line ++ ", Column: " ++
    toString e.location.column

/-- The error as reported for a statement. -/
def LexicalError.report (e : LexicalError) : String := "failed to tokenize SQL: " ++ e.text

end QueryGate.Sql
