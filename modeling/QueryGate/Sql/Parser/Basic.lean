import QueryGate.Dialect
import QueryGate.Sql.Token
import QueryGate.Sql.Tree

namespace QueryGate.Sql

/-!
# Parsers

A parser reads tokens from the front of a list of lexemes. It can stop in three ways: the tokens
do not fit, the nesting is too deep, or the grammar has no answer at all (`stuck`). Alternatives
are tried after a misfit only.

Nested queries and expressions are read through the environment, whose parsers have one level
less to spend; the module `Sql.Parser` ties the knot. So every parser here is a plain function.
-/

namespace Parser

/-- A token that is no trivia. `keyword` is its upper case if it is an unquoted word, and
`attached` says that nothing stands between it and the token before it. -/
structure Lexeme where
  token : Token
  keyword : String
  attached : Bool
deriving DecidableEq, Repr

/-- The lexemes among tokens; `attached` is the state before the first of them. -/
def lexemes (attached : Bool) : List Token → List Lexeme
  | [] => []
  | t :: ts => if t.isTrivia then lexemes false ts else ⟨t, t.keyword, attached⟩ :: lexemes true ts

/-- Why a parser stops. -/
inductive Halt where
  | misfit
  | tooDeep
  | stuck
deriving DecidableEq, Repr

/-- What is left to read, and the ways to stop. -/
abbrev Raw := StateT (List Lexeme) (Except Halt)

/-- What an expression is, as far as the grammar around it asks. -/
inductive Shape where
  | identifier (name : Ident)
  | path
  | value
  | call
  | access
  | wildcard
  | other
deriving DecidableEq, Repr

/-- An expression: what it is, and the queries in it. -/
structure Term where
  shape : Shape
  queries : List Query

/-- Any other expression with these queries. -/
def Term.of (queries : List Query) : Term := ⟨.other, queries⟩

/-- The dialect, and the parsers of what is nested one level deeper. -/
structure Env where
  dialect : Dialect
  query : Raw Query
  term : Nat → Raw Term

end Parser

/-- A parser of the grammar. -/
abbrev Parser := ReaderT Parser.Env Parser.Raw

namespace Parser

/-- The dialect of the text. -/
def dialect : Parser Dialect := fun env => pure env.dialect

/-- A query one level deeper. -/
def query : Parser Query := fun env => env.query

/-- An expression one level deeper, up to the first operator that binds no tighter than
`power`. -/
def termAbove (power : Nat) : Parser Term := fun env => env.term power

/-- An expression one level deeper. -/
def expr : Parser Term := termAbove 0

/-- The queries in an expression one level deeper. -/
def exprQueries : Parser (List Query) := Term.queries <$> expr

/-! ### Control -/

/-- The tokens do not fit. -/
def misfit : Parser α := throw .misfit

/-- Goes on only if a condition holds. -/
def ensure (b : Bool) : Parser Unit := if b then pure () else misfit

/-- Whether the text is in this dialect. -/
def isDialect (d : Dialect) : Parser Bool := return (← dialect) == d

/-- Whether both hold; the second is tried only if the first does. -/
def both (p q : Parser Bool) : Parser Bool := do
  if ← p then q else return false

/-- Whether one of the two holds; the second is tried only if the first does not. -/
def either (p q : Parser Bool) : Parser Bool := do
  if ← p then return true else q

/-- Tries a parser; after a misfit nothing has been read. -/
def attempt (p : Parser α) : Parser (Option α) := fun env input =>
  match p env input with
  | .ok (a, rest) => .ok (some a, rest)
  | .error .misfit => .ok (none, input)
  | .error e => .error e

/-- The second parser, where the first one fails and the second does not; else the first one's
failure. -/
def orElseInstead (p : Parser α) (fallback : Parser α) : Parser α := fun env input =>
  match p env input with
  | .ok r => .ok r
  | .error .stuck => .error .stuck
  | .error e =>
    match fallback env input with
    | .ok r => .ok r
    | .error .stuck => .error .stuck
    | .error _ => .error e

/-- A parser that has to succeed: any failure leaves the grammar without an answer. -/
def insist (p : Parser α) : Parser α := fun env input =>
  match p env input with
  | .ok r => .ok r
  | .error _ => .error .stuck

/-- Runs a loop with enough fuel to take every token that is left. -/
def withFuel (p : Nat → Parser α) : Parser α := do
  p ((← get).length + 1)

/-! ### Single lexemes -/

/-- The next lexeme, left in place. -/
def peek : Parser (Option Lexeme) := return (← get).head?

/-- Takes the next lexeme; at the end there is none to take. -/
def next : Parser (Option Lexeme) := do
  match ← get with
  | [] => return none
  | l :: rest =>
    set rest
    return some l

/-- The token of the next lexeme, left in place. -/
def peekToken : Parser (Option Token) := return (← peek).map (·.token)

/-- Takes the token of the next lexeme. -/
def nextToken : Parser (Option Token) := return (← next).map (·.token)

/-- Drops the next lexeme. -/
def skip : Parser Unit := discard next

/-- Whether the next lexeme is this keyword. -/
def atKeyword (k : String) : Parser Bool := return (← get).head?.any (·.keyword == k)

/-- Whether the next lexeme is one of these keywords. -/
def atAny (ks : List String) : Parser Bool := return (← get).head?.any fun l => ks.contains l.keyword

/-- Takes a keyword if it comes next. -/
def keyword (k : String) : Parser Bool := do
  match ← get with
  | l :: rest =>
    if l.keyword == k then
      set rest
      return true
    else return false
  | [] => return false

/-- What is left after these keywords, if they come next. -/
def afterKeywords? : List String → List Lexeme → Option (List Lexeme)
  | [], ls => some ls
  | k :: ks, l :: ls => if l.keyword == k then afterKeywords? ks ls else none
  | _ :: _, [] => none

/-- Takes keywords in a row if they all come next. -/
def keywords (ks : List String) : Parser Bool := do
  match afterKeywords? ks (← get) with
  | some rest =>
    set rest
    return true
  | none => return false

/-- Takes one of these keywords if it comes next. -/
def keywordOf? (ks : List String) : Parser (Option String) := do
  match ← get with
  | l :: rest =>
    if ks.contains l.keyword then
      set rest
      return some l.keyword
    else return none
  | [] => return none

/-- Takes one of these keywords. -/
def keywordOf (ks : List String) : Parser String := do
  match ← keywordOf? ks with
  | some k => return k
  | none => misfit

/-- Takes a keyword. -/
def expectKeyword (k : String) : Parser Unit := do ensure (← keyword k)

/-- Takes keywords in a row. -/
def expectKeywords (ks : List String) : Parser Unit := do ensure (← keywords ks)

/-- Whether the next lexeme is this symbol. -/
def atSymbol (s : String) : Parser Bool := return (← get).head?.any (·.token == .symbol s)

/-- Takes a symbol if it comes next. -/
def symbol (s : String) : Parser Bool := do
  match ← get with
  | l :: rest =>
    if l.token == .symbol s then
      set rest
      return true
    else return false
  | [] => return false

/-- Takes a symbol. -/
def expectSymbol (s : String) : Parser Unit := do ensure (← symbol s)

/-! ### Combinations -/

/-- One or more items with commas between them, at most as many as there is fuel. -/
def listOf (item : Parser α) : Nat → Parser (List α)
  | 0 => misfit
  | fuel + 1 => do
    let a ← item
    if ← symbol "," then return a :: (← listOf item fuel)
    else return [a]

/-- One or more items with commas between them. -/
def commaList (item : Parser α) : Parser (List α) := withFuel (listOf item)

/-- The same for items that are sequences, joined. -/
def commaLists (item : Parser (List α)) : Parser (List α) := List.flatten <$> commaList item

/-- An item in parentheses. -/
def parenthesized (item : Parser α) : Parser α := do
  expectSymbol "("
  let a ← item
  expectSymbol ")"
  return a

/-- An item behind a keyword, if that comes next. -/
def clause (k : String) (item : Parser (List α)) : Parser (List α) := do
  if ← keyword k then item else return []

/-- An item behind two keywords, if they come next. -/
def clauseBy (k : String) (item : Parser (List α)) : Parser (List α) := do
  if ← keywords [k, "BY"] then item else return []

/-! ### Names -/

/-- An identifier: a word of any kind, or a string literal in its place. -/
def identOf? : Token → Option Ident
  | .word text quote => some ⟨text, quote⟩
  | .literal .single text => some ⟨text, some '\x27'⟩
  | .literal .double text => some ⟨text, some '"'⟩
  | _ => none

/-- Takes an identifier. -/
def ident : Parser Ident := do
  match (← next).bind (identOf? ·.token) with
  | some i => return i
  | none => misfit

/-- Identifiers with periods between them. -/
def dotted : Nat → Parser Name
  | 0 => misfit
  | fuel + 1 => do
    let i ← ident
    if ← symbol "." then return i :: (← dotted fuel)
    else return [i]

/-- A dotted name. -/
def name : Parser Name := withFuel dotted

/-- Whether the word at this lexeme may be an alias, by a list of words that may not. -/
def aliasWord? (reserved : List String) (l : Lexeme) : Option Ident :=
  match l.token with
  | .word text quote => if reserved.contains l.keyword then none else some ⟨text, quote⟩
  | .literal .single text => some ⟨text, some '\x27'⟩
  | .literal .double text => some ⟨text, some '"'⟩
  | _ => none

/-- An alias: anything that names behind `AS`, and without `AS` what is not reserved. -/
def aliasUnless (reserved : List String) : Parser (Option Ident) := do
  if ← keyword "AS" then return some (← ident)
  else
    match ← get with
    | l :: rest =>
      match aliasWord? reserved l with
      | some i =>
        set rest
        return some i
      | none => return none
    | [] => return none

/-- Identifiers in parentheses. -/
def identList : Parser (List Ident) := parenthesized (commaList ident)

/-- Dotted names in parentheses. -/
def nameList : Parser (List Name) := parenthesized (commaList name)

end Parser

end QueryGate.Sql
