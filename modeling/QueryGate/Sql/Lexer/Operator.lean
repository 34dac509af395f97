import QueryGate.Dialect
import QueryGate.Sql.Lexer.Fault

namespace QueryGate.Sql.Lexer

/-!
# Operators

Longest match among the known operators. Where a dialect has custom operators, most known ones
are extended by the operator characters that follow them.
-/

/-- The characters that custom operators are made of. -/
def isOperatorPart (c : Char) : Bool := "+-*/<>=~!@#%^&|`?".toList.contains c

/-- The operator `text`, or the custom one that the following characters extend it to. -/
def extensible (d : Dialect) (text : String) (rest : List Char) : Token × List Char :=
  let more := if d.customOperators then rest.takeWhile isOperatorPart else []
  if more.isEmpty then (.symbol text, rest)
  else (.customOperator (text ++ String.ofList more), rest.drop more.length)

/-- A start of an operator that is none by itself and has to be extended. -/
def onlyExtended (d : Dialect) (text : String) (rest : List Char) : Step :=
  let more := if d.customOperators then rest.takeWhile isOperatorPart else []
  if more.isEmpty then .error ⟨"Expected a valid binary operator after '" ++ text ++ "'", rest⟩
  else .ok (.customOperator (text ++ String.ofList more), rest.drop more.length)

/-- The rest of an operator that starts with `-`. -/
def minusToken (d : Dialect) : List Char → Token × List Char
  | '>' :: '>' :: cs => extensible d "->>" cs
  | '>' :: cs => extensible d "->" cs
  | cs => extensible d "-" cs

/-- The rest of an operator that starts with `|`. -/
def barToken (d : Dialect) : List Char → Step
  | '/' :: cs => .ok (extensible d "|/" cs)
  | '|' :: '/' :: cs => .ok (extensible d "||/" cs)
  | '|' :: cs => .ok (extensible d "||" cs)
  | '&' :: cs =>
    if d.customOperators then
      match cs with
      | '>' :: cs => .ok (extensible d "|&>" cs)
      | cs => onlyExtended d "|&" cs
    else .ok (extensible d "|" ('&' :: cs))
  | '>' :: cs =>
    if d.customOperators then
      match cs with
      | '>' :: cs => .ok (extensible d "|>>" cs)
      | cs => onlyExtended d "|>" cs
    else .ok (extensible d "|" ('>' :: cs))
  | cs => .ok (extensible d "|" cs)

/-- The rest of an operator that starts with `=`. -/
def equalsToken : List Char → Token × List Char
  | '>' :: cs => (.symbol "=>", cs)
  | '=' :: cs => (.symbol "==", cs)
  | cs => (.symbol "=", cs)

/-- The rest of an operator that starts with `!`. -/
def bangToken : List Char → Token × List Char
  | '=' :: cs => (.symbol "<>", cs)
  | '!' :: cs => (.symbol "!!", cs)
  | '~' :: '*' :: cs => (.symbol "!~*", cs)
  | '~' :: '~' :: '*' :: cs => (.symbol "!~~*", cs)
  | '~' :: '~' :: cs => (.symbol "!~~", cs)
  | '~' :: cs => (.symbol "!~", cs)
  | cs => (.symbol "!", cs)

/-- The rest of an operator that starts with `<`. -/
def lessToken (d : Dialect) : List Char → Step
  | '=' :: '>' :: cs => .ok (extensible d "<=>" cs)
  | '=' :: cs => .ok (extensible d "<=" cs)
  | '|' :: cs =>
    .ok (if d.customOperators then extensible d "<<|" cs else extensible d "<" ('|' :: cs))
  | '>' :: cs => .ok (extensible d "<>" cs)
  | '<' :: cs =>
    match cs with
    | '|' :: r => .ok (if d.customOperators then extensible d "<<|" r else extensible d "<<" cs)
    | _ => .ok (extensible d "<<" cs)
  | '-' :: cs =>
    if d.customOperators then
      match cs with
      | '>' :: cs => .ok (extensible d "<->" cs)
      | cs => onlyExtended d "<-" cs
    else .ok (extensible d "<" ('-' :: cs))
  | '^' :: cs =>
    .ok (if d.customOperators then extensible d "<^" cs else extensible d "<" ('^' :: cs))
  | '@' :: cs => .ok (extensible d "<@" cs)
  | cs => .ok (extensible d "<" cs)

/-- The rest of an operator that starts with `>`. -/
def greaterToken (d : Dialect) : List Char → Token × List Char
  | '=' :: cs => extensible d ">=" cs
  | '>' :: cs => extensible d ">>" cs
  | '^' :: cs => if d.customOperators then extensible d ">^" cs else extensible d ">" ('^' :: cs)
  | cs => extensible d ">" cs

/-- The rest of an operator that starts with `:`. -/
def colonToken : List Char → Token × List Char
  | ':' :: cs => (.symbol "::", cs)
  | '=' :: cs => (.symbol ":=", cs)
  | cs => (.symbol ":", cs)

/-- The rest of an operator that starts with `&`. The geometric `&>` takes the character after
it along. -/
def ampersandToken (d : Dialect) : List Char → Token × List Char
  | '>' :: cs =>
    if d.customOperators then (.symbol "&>", cs.tail) else extensible d "&" ('>' :: cs)
  | '<' :: cs =>
    if d.customOperators then
      match cs with
      | '|' :: cs => (.symbol "&<|", cs)
      | cs => extensible d "&<" cs
    else extensible d "&" ('<' :: cs)
  | '&' :: cs => extensible d "&&" cs
  | cs => extensible d "&" cs

/-- The rest of an operator that starts with `~`. -/
def tildeToken (d : Dialect) : List Char → Token × List Char
  | '*' :: cs => extensible d "~*" cs
  | '=' :: cs => if d.customOperators then extensible d "~=" cs else extensible d "~" ('=' :: cs)
  | '~' :: '*' :: cs => extensible d "~~*" cs
  | '~' :: cs => extensible d "~~" cs
  | cs => extensible d "~" cs

/-- The rest of an operator that starts with `#`. -/
def hashToken (d : Dialect) : List Char → Token × List Char
  | '-' :: cs => extensible d "#-" cs
  | '>' :: '>' :: cs => extensible d "#>>" cs
  | '>' :: cs => extensible d "#>" cs
  | ' ' :: cs => (.symbol "#", ' ' :: cs)
  | '#' :: cs => if d.customOperators then extensible d "##" cs else extensible d "#" ('#' :: cs)
  | cs => extensible d "#" cs

/-- The rest of an operator that starts with `?`, where that is no placeholder. A lone mark takes
the character after it along. -/
def questionToken : List Char → Token × List Char
  | '|' :: '|' :: cs => (.symbol "?||", cs)
  | '|' :: cs => (.symbol "?|", cs)
  | '&' :: cs => (.symbol "?&", cs)
  | '-' :: '|' :: cs => (.symbol "?-|", cs)
  | '-' :: cs => (.symbol "?-", cs)
  | '#' :: cs => (.symbol "?#", cs)
  | cs => (.symbol "?", cs.tail)

end QueryGate.Sql.Lexer
