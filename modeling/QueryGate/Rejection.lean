import QueryGate.Offence

namespace QueryGate

/-!
# Decisions

A statement is accepted with the text to run, or rejected for a cause. The details of a rejection
name the word or table at fault and never repeat the statement.
-/

/-- The kinds of rejection, for programs to tell apart. -/
inductive Reason where
  | empty
  | notSelect
  | multiStatement
  | forbiddenKeyword
  | forbiddenFunction
  | tableNotAllowed
  | malformed
  | limitExceeded
deriving DecidableEq, Repr

/-- The stable code of a reason. -/
def Reason.code : Reason → String
  | empty => "EMPTY"
  | notSelect => "NOT_SELECT"
  | multiStatement => "MULTI_STATEMENT"
  | forbiddenKeyword => "FORBIDDEN_KEYWORD"
  | forbiddenFunction => "FORBIDDEN_FUNCTION"
  | tableNotAllowed => "TABLE_NOT_ALLOWED"
  | malformed => "MALFORMED"
  | limitExceeded => "LIMIT_EXCEEDED"

/-- Why a statement is rejected. -/
inductive Rejection where
  /-- Nothing was submitted. -/
  | empty
  /-- The statement starts with another word, or with none. -/
  | notSelect (found : Option String)
  /-- The statement parses, but as something else than a query. -/
  | notAQuery
  | multiStatement
  | forbiddenKeyword (word : String)
  | forbiddenFunction (name : String)
  | tableNotAllowed (table : String)
  /-- There is no table that may be read. -/
  | emptyAllowList
  /-- The statement cannot be read. -/
  | malformed (report : String)
  | limitExceeded (requested max : Nat)
deriving DecidableEq, Repr

/-- A text, cut to a number of characters and marked where it was longer. -/
def shortened (count : Nat) (s : String) : String :=
  if s.length ≤ count then s else String.ofList (s.toList.take count) ++ "..."

namespace Rejection

/-- The reason of a rejection. -/
def reason : Rejection → Reason
  | empty => .empty
  | notSelect _ | notAQuery => .notSelect
  | multiStatement => .multiStatement
  | forbiddenKeyword _ => .forbiddenKeyword
  | forbiddenFunction _ => .forbiddenFunction
  | tableNotAllowed _ | emptyAllowList => .tableNotAllowed
  | malformed _ => .malformed
  | limitExceeded _ _ => .limitExceeded

/-- The details of a rejection, for logs and programs. -/
def detail : Rejection → String
  | empty => "no statement text was submitted"
  | notSelect none => "statement must start with SELECT or WITH"
  | notSelect (some found) =>
    "statement must start with SELECT or WITH, found " ++ shortened 32 (Text.upper found)
  | notAQuery => "statement does not parse as a read-only query"
  | multiStatement => "statement separators (';') are not allowed"
  | forbiddenKeyword word => "keyword " ++ Text.upper word ++ " is not allowed"
  | forbiddenFunction name => "function " ++ name ++ "() is not allowed"
  | tableNotAllowed table => "table '" ++ shortened 128 table ++ "' is not in the allowed table set"
  | emptyAllowList => "no tables are allowed for this data source"
  | malformed report => "statement could not be analyzed: " ++ report
  | limitExceeded requested max =>
    "explicit limit " ++ toString requested ++ " exceeds the maximum of " ++ toString max ++ " rows"

/-- Code and details. -/
def message (r : Rejection) : String := r.reason.code ++ ": " ++ r.detail

/-- What an end user is told about any rejection. -/
def publicMessage : String := "could not run this query safely"

/-- The rejection for an offence. -/
def ofOffence : Offence → Rejection
  | .verb word => .forbiddenKeyword word
  | .call name => .forbiddenFunction name

end Rejection

/-- The outcome of a statement at the gate. -/
inductive Decision where
  | accepted (sql : List Char)
  | rejected (rejection : Rejection)
  /-- The grammar has no answer about the statement. -/
  | undecided
deriving DecidableEq, Repr

end QueryGate
