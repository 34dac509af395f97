import QueryGate.Sql.Location
import QueryGate.Text.Case

namespace QueryGate.Sql

/-!
# Tokens

What a statement is made of. Blanks and comments are tokens too; `Token.isTrivia` tells them
from the rest. A keyword is an unquoted word, and there are two readings of it: `isKeyword`
compares ASCII letters only, `keyword` is the upper case that the grammar compares with.
-/

/-- The forms of a string literal. -/
inductive LiteralKind where
  | single
  | double
  | national
  | hex
  | bits
  | bitsDouble
  | escaped
  | unicode
  | dollar
deriving DecidableEq, Repr

/-- Text between tokens. -/
inductive Blank where
  | space
  | tab
  | newline
  | lineComment (text : String)
  | blockComment (text : String)
deriving DecidableEq, Repr

/-- One token of a statement. -/
inductive Token where
  /-- A word; `quote` is the opening quote of a quoted identifier. -/
  | word (text : String) (quote : Option Char)
  /-- A number as written; `long` is the suffix `L`. -/
  | number (text : String) (long : Bool)
  | literal (kind : LiteralKind) (text : String)
  | placeholder (text : String)
  /-- Punctuation, an operator known by name, or any character that is none of the above. -/
  | symbol (text : String)
  /-- A run of operator characters that is no known operator. -/
  | customOperator (text : String)
  | blank (content : Blank)
deriving DecidableEq, Repr

/-- A token and where it stands. -/
structure Placed where
  token : Token
  span : Span
deriving DecidableEq, Repr

namespace Token

/-- Blanks and comments. -/
def isTrivia : Token → Bool
  | blank _ => true
  | _ => false

/-- The text of an unquoted word. -/
def bareWord? : Token → Option String
  | word text none => some text
  | _ => none

/-- Whether the token is an unquoted word that spells `keyword` up to ASCII case. -/
def isKeyword (t : Token) (keyword : String) : Bool :=
  match t.bareWord? with
  | some text => Text.asciiEqual text keyword
  | none => false

/-- The upper case of an unquoted word, and the empty text for any other token. -/
def keyword (t : Token) : String :=
  match t.bareWord? with
  | some text => Text.upper text
  | none => ""

/-- A number token as it was written. -/
def numberText : String → Bool → String
  | text, long => if long then text ++ "L" else text

end Token

/-- The tokens from the first one on that is not trivia. -/
def significant (ts : List Token) : List Token := ts.dropWhile Token.isTrivia

/-- Whether the text ends inside a line comment: its last token, single blanks aside, is a line
comment that the end of the text closes. -/
def endsInLineComment (ts : List Token) : Bool :=
  match ts.reverse.dropWhile fun t => t == .blank .space || t == .blank .tab with
  | .blank (.lineComment text) :: _ => !text.endsWith "\n"
  | _ => false

end QueryGate.Sql
