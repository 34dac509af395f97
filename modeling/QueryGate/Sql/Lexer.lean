import QueryGate.Sql.Lexer.Comment
import QueryGate.Sql.Lexer.Number
import QueryGate.Sql.Lexer.Operator
import QueryGate.Sql.Lexer.Quoted

namespace QueryGate.Sql

/-!
# Reading tokens

`Lexer.step` reads one token from the front of a text; `Sql.scan` reads a whole text and says
where each token stands, and `Sql.tokens` forgets the places.
-/

namespace Lexer

/-- An unquoted word that starts with these characters and goes on in `cs`. -/
def wordToken (d : Dialect) (start cs : List Char) : Token × List Char :=
  let more := cs.takeWhile d.continuesWord
  (.word (String.ofList (start ++ more)) none, cs.drop more.length)

/-- What starts with `@`. Where `@` starts a word, the character after it belongs to the word
whatever it is, blanks and quotes aside. -/
def atToken (d : Dialect) (cs : List Char) : Step :=
  match cs with
  | '@' :: rest =>
    if d.customOperators then .ok (.symbol "@@", rest)
    else match rest with
      | c :: r =>
        if c != ' ' && d.startsWord '@' then .ok (wordToken d ['@', '@', c] r)
        else .ok (.symbol "@@", rest)
      | [] => .ok (.symbol "@@", [])
  | '>' :: rest => .ok (.symbol "@>", rest)
  | '?' :: rest => .ok (.symbol "@?", rest)
  | c :: rest =>
    if c = '-' && d.customOperators then
      match rest with
      | '@' :: r => .ok (.symbol "@-@", r)
      | _ => onlyExtended d "@-" rest
    else if [' ', '\x27', '"', '\x60'].contains c then .ok (.symbol "@", cs)
    else if d.startsWord '@' then .ok (wordToken d ['@', c] rest)
    else .ok (.symbol "@", cs)
  | [] => .ok (.symbol "@", [])

/-- What starts with a minus sign: a comment or an operator. -/
def dashToken (d : Dialect) : List Char → Token × List Char
  | '-' :: cs =>
    if d.dashCommentsNeedSpace && cs.head? != some ' ' then minusToken d ('-' :: cs)
    else lineComment d cs
  | cs => minusToken d cs

/-- What starts with a letter that may introduce a literal: the literal if the quote follows. -/
def letterToken (d : Dialect) (c : Char) (cs : List Char) : Option Step :=
  match cs with
  | '\x27' :: _ =>
    if c = 'n' || c = 'N' then some (stringLiteral .national '\x27' d.backslashEscapes cs)
    else if c = 'x' || c = 'X' then some (stringLiteral .hex '\x27' true cs)
    else if (c = 'b' || c = 'B') && d.bitLiterals then some (stringLiteral .bits '\x27' false cs)
    else if (c = 'e' || c = 'E') && d.escapeLiterals then some (escapedLiteral (c :: cs))
    else none
  | '"' :: _ =>
    if (c = 'b' || c = 'B') && d.bitLiterals then some (stringLiteral .bitsDouble '"' false cs)
    else none
  | '&' :: '\x27' :: _ =>
    if (c = 'u' || c = 'U') && d.escapeLiterals then some (unicodeLiteral (c :: cs)) else none
  | _ => none

/-- What starts with a character that is neither letter, digit, quote nor blank. -/
def symbolToken (d : Dialect) (c : Char) (cs : List Char) : Step :=
  match c with
  | '-' => .ok (dashToken d cs)
  | '/' =>
    match cs with
    | '*' :: r => blockComment d r
    | _ => .ok (.symbol "/", cs)
  | '%' =>
    match cs with
    | b :: _ => if Text.isBlank b then .ok (.symbol "%", cs) else .ok (extensible d "%" cs)
    | [] => .ok (.symbol "%", [])
  | '|' => barToken d cs
  | '=' => .ok (equalsToken cs)
  | '!' => .ok (bangToken cs)
  | '<' => lessToken d cs
  | '>' => .ok (greaterToken d cs)
  | ':' => .ok (colonToken cs)
  | '&' => .ok (ampersandToken d cs)
  | '^' =>
    match cs with
    | '@' :: r => .ok (.symbol "^@", r)
    | _ => .ok (.symbol "^", cs)
  | '#' => .ok (if d.hashComments then lineComment d cs else hashToken d cs)
  | '~' => .ok (tildeToken d cs)
  | '@' => atToken d cs
  | '?' =>
    if d.customOperators then .ok (questionToken cs)
    else
      let digits := cs.takeWhile Text.isNumeric
      .ok (.placeholder (String.ofList ('?' :: digits)), cs.drop digits.length)
  | _ =>
    if d.startsWord c then .ok (wordToken d [c] cs)
    else if c = '$' then if d.dollarPlaceholders then .ok (dollarPlaceholder cs) else dollarQuoted cs
    else if Text.isBlank c then .ok (.blank .space, cs)
    else .ok (.symbol c.toString, cs)

/-- Reads the token that starts with `c`, given the token before it. -/
def step (d : Dialect) (previous : Option Token) (c : Char) (cs : List Char) : Step :=
  if c = ' ' then .ok (.blank .space, cs)
  else if c = '\t' then .ok (.blank .tab, cs)
  else if c = '\n' then .ok (.blank .newline, cs)
  else if c = '\r' then
    match cs with
    | '\n' :: r => .ok (.blank .newline, r)
    | _ => .ok (.blank .newline, cs)
  else if c = '\x27' then stringLiteral .single '\x27' d.backslashEscapes (c :: cs)
  else match d.identifierQuote? c with
    | some close => quotedIdentifier c close (c :: cs)
    | none =>
      if c = '"' then stringLiteral .double '"' d.backslashEscapes (c :: cs)
      else if c.isDigit || c = '.' then numberOrPeriod d previous (c :: cs)
      else if c.isAlpha then (letterToken d c cs).getD (.ok (wordToken d [c] cs))
      else symbolToken d c cs

end Lexer

/-- Reads a text to its end; each token takes at least one character, so the length of the text
is fuel enough. -/
def scanFrom (d : Dialect) : Nat → Location → Option Token → List Char →
    Except LexicalError (List Placed)
  | 0, _, _, _ => .ok []
  | _ + 1, _, _, [] => .ok []
  | fuel + 1, start, previous, c :: cs =>
    let text := c :: cs
    match Lexer.step d previous c cs with
    | .error fault =>
      .error ⟨fault.message, start.after (text.take (text.length - fault.rest.length))⟩
    | .ok (token, rest) => do
      let stop := start.after (text.take (text.length - rest.length))
      let more ← scanFrom d fuel stop (some token) rest
      return ⟨token, ⟨start, stop⟩⟩ :: more

/-- The tokens of a text and their places. -/
def scan (d : Dialect) (cs : List Char) : Except LexicalError (List Placed) :=
  scanFrom d cs.length .origin none cs

/-- The tokens of a text. -/
def tokens (d : Dialect) (cs : List Char) : Except LexicalError (List Token) :=
  (scan d cs).map fun ts => ts.map Placed.token

end QueryGate.Sql
