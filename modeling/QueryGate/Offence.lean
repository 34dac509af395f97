import QueryGate.Sql.Lexer
import QueryGate.Vocabulary

namespace QueryGate

/-!
# Forbidden words in a statement

The first forbidden verb or call among the tokens of a statement, from left to right. Where the
server runs the text of comments that begin with `!`, that text is read as a statement of its
own.
-/

open Sql

/-- A forbidden verb, or a call of a forbidden function, in lower case. -/
inductive Offence where
  | verb (word : String)
  | call (name : String)
deriving DecidableEq, Repr

namespace Offence

/-- The verb or name, in lower case. -/
def word : Offence → String
  | verb w => w
  | call f => f

/-- The offence as shown to a reader. -/
def message : Offence → String
  | verb w => "keyword " ++ Text.upper w
  | call f => "function " ++ f ++ "()"

end Offence

/-- The code that a comment holds: what follows the mark `!` and a version number. -/
def bangCode? (v : Vocabulary) (comment : String) : Option (List Char) :=
  if v.dialect.runsBangComments then
    match comment.toList with
    | '!' :: cs => some (cs.dropWhile Char.isDigit)
    | _ => none
  else none

/-- The offence of one word, given the tokens after it. -/
def wordOffence? (v : Vocabulary) (text : String) (quote : Option Char) (after : List Token) :
    Option Offence :=
  let lower := Text.lower text
  if quote.isNone && v.forbidsVerb lower then some (.verb lower)
  else if v.forbidsFunction lower && (significant after).head? == some (.symbol "(") then
    some (.call lower)
  else none

/-- The first offence among tokens; `inComment` searches the code of a comment. -/
def firstOffence (v : Vocabulary)
    (inComment : List Char → Except LexicalError (Option Offence)) :
    List Token → Except LexicalError (Option Offence)
  | [] => .ok none
  | .word text quote :: ts =>
    match wordOffence? v text quote ts with
    | some o => .ok (some o)
    | none => firstOffence v inComment ts
  | .blank (.blockComment text) :: ts =>
    match bangCode? v text with
    | some code => do
      match ← inComment code with
      | some o => return some o
      | none => firstOffence v inComment ts
    | none => firstOffence v inComment ts
  | _ :: ts => firstOffence v inComment ts

/-- The first offence in a text, where comments are searched to a bounded depth. -/
def offenceWithin (v : Vocabulary) : Nat → List Char → Except LexicalError (Option Offence)
  | 0, _ => .ok none
  | depth + 1, cs => do
    firstOffence v (offenceWithin v depth) (← tokens v.dialect cs)

/-- The first offence in a text. Code inside a comment is shorter than the text around it, so the
length of the text bounds the depth. -/
def findOffence (v : Vocabulary) (cs : List Char) : Except LexicalError (Option Offence) :=
  offenceWithin v (cs.length + 1) cs

/-- The first offence among the tokens of a text that has been read already. -/
def offenceOf (v : Vocabulary) (cs : List Char) (ts : List Token) :
    Except LexicalError (Option Offence) :=
  firstOffence v (offenceWithin v cs.length) ts

/-- Whether a text is unfit: it holds an offence or cannot be read. -/
def containsOffence (v : Vocabulary) (cs : List Char) : Bool :=
  match findOffence v cs with
  | .ok none => false
  | _ => true

end QueryGate
