import QueryGate.Sql.Parser.Basic

namespace QueryGate.Sql.Parser

/-!
# Binding powers

How tightly each infix operator binds. `infixPower` looks at the tokens ahead and is zero where
no operator comes next.
-/

/-- The classes of operators that share a binding power. -/
inductive Tier where
  | period
  | cast
  | timeZone
  | product
  | sum
  | xor
  | bitAnd
  | caret
  | bitOr
  | colon
  | between
  | comparison
  | like
  | is
  | custom
  | not
  | and
  | or
deriving DecidableEq, Repr

/-- The binding power of a tier; PostgreSQL has an order of its own. -/
def Tier.power (d : Dialect) (t : Tier) : Nat :=
  match d with
  | .postgresql =>
    match t with
    | period => 200
    | cast => 140
    | timeZone => 110
    | caret => 100
    | product => 90
    | sum => 80
    | xor => 75
    | bitAnd | bitOr | colon | custom => 70
    | between | like => 60
    | comparison => 50
    | is => 40
    | not => 30
    | and => 20
    | or => 10
  | _ =>
    match t with
    | period => 100
    | cast => 50
    | timeZone => 41
    | product => 40
    | sum => 30
    | xor => 24
    | bitAnd => 23
    | caret => 22
    | bitOr | colon => 21
    | between | comparison => 20
    | like => 19
    | is => 17
    | custom => 16
    | not => 15
    | and => 10
    | or => 5

/-- The tier of an infix symbol. -/
def symbolTier? (s : String) : Option Tier :=
  if [":=", "=", "<", "<=", "<>", ">", ">=", "==", "~", "~*", "!~", "!~*", "~~", "~~*", "!~~",
      "!~~*", "<=>"].contains s then some .comparison
  else if ["|", "?-", "##", "&&", "&<", "&>", "?-|", "&<|", "|&>", "<->", "<^", ">^", "?#", "?||",
      "?|", "~=", "@", "<<|", "|>>"].contains s then some .bitOr
  else if ["^", "#", ">>", "<<"].contains s then some .caret
  else if s == "&" then some .bitAnd
  else if s == "+" || s == "-" then some .sum
  else if ["*", "/", "%", "||"].contains s then some .product
  else if ["::", "!", "[", "^@"].contains s then some .cast
  else if ["->", "->>", "#>", "#>>", "@>", "<@", "#-", "@?", "@@", "?", "?&"].contains s then
    some .custom
  else none

/-- Symbols that PostgreSQL counts among the custom operators. -/
def otherSymbols : List String :=
  ["->", "->>", "#>", "#>>", "@>", "<@", "#-", "@?", "@@", "?", "?&", "?|", "!", "&&", "^@", "||",
    "#", ">>", "<<"]

/-- The binding power of an infix symbol; `after` is what follows it. -/
def symbolPower (d : Dialect) (s : String) (after : List Lexeme) : Nat :=
  if d = .postgresql then
    if s == "[" then 130
    else if otherSymbols.contains s then Tier.custom.power d
    else ((symbolTier? s).map (·.power d)).getD 0
  else if s == ":" then
    match after with
    | ⟨.literal .single _, _, _⟩ :: _ => 0
    | ⟨.number _ _, _, _⟩ :: _ => 0
    | _ => Tier.colon.power d
  else ((symbolTier? s).map (·.power d)).getD 0

/-- The tier of an infix keyword; `after` is what follows it. -/
def keywordTier? (d : Dialect) (k : String) (after : List Lexeme) : Option Tier :=
  match k with
  | "OR" => some .or
  | "AND" => some .and
  | "XOR" => some .xor
  | "AT" =>
    match after with
    | time :: zone :: _ =>
      if time.keyword == "TIME" && zone.keyword == "ZONE" then some .timeZone else none
    | _ => none
  | "NOT" =>
    match after with
    | l :: _ =>
      if ["IN", "BETWEEN"].contains l.keyword then some .between
      else if ["LIKE", "ILIKE", "RLIKE", "REGEXP", "MATCH", "SIMILAR", "MEMBER"].contains l.keyword
        then some .like
      else if l.keyword == "NULL" then some .is
      else none
    | [] => none
  | "NOTNULL" => if d = .mysql then none else some .is
  | "IS" => some .is
  | "IN" | "BETWEEN" | "OVERLAPS" | "OPERATOR" => some .between
  | "LIKE" | "ILIKE" | "RLIKE" | "REGEXP" | "MATCH" | "SIMILAR" | "MEMBER" => some .like
  | "DIV" => some .product
  | _ => none

/-- The binding power of the infix operator at the front of the lexemes. -/
def infixPower (d : Dialect) : List Lexeme → Nat
  | [] => 0
  | l :: after =>
    match l.token with
    | .symbol s => symbolPower d s after
    | .customOperator _ => Tier.custom.power d
    | .word _ _ =>
      if d = .postgresql && l.keyword == "COLLATE" then 120
      else ((keywordTier? d l.keyword after).map (·.power d)).getD 0
    | _ => 0

/-- Comparisons, the operators that `ANY` and `ALL` may follow. -/
def comparisonSymbols : List String :=
  ["=", "==", "<>", "<", ">", "<=", ">=", "~", "~*", "!~", "!~*", "~~", "~~*", "!~~", "!~~*"]

/-- Infix symbols of every dialect. -/
def commonBinary : List String :=
  comparisonSymbols ++
    ["<=>", ":=", "+", "-", "*", "/", "%", "||", "|", "^", "&", "->", "->>", "#>", "#>>", "@>",
      "<@", "#-", "@?", "@@", "?", "?&", "?|"]

/-- Infix symbols of PostgreSQL alone. -/
def geometricBinary : List String :=
  ["<<", ">>", "#", "&&", "^@", "##", "&<", "&>", "?-|", "&<|", "|&>", "<->", "<^", ">^", "?#",
    "?||", "?-", "~=", "<<|", "|>>", "@"]

/-- Whether a token is an infix operator with an expression on each side. -/
def isBinary (d : Dialect) (t : Token) : Bool :=
  match t with
  | .symbol s =>
    commonBinary.contains s || (d == .postgresql && geometricBinary.contains s) ||
      (d == .mysql && s == "&&")
  | .customOperator _ => true
  | _ => false

end QueryGate.Sql.Parser
