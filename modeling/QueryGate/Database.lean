import QueryGate.Database.Cell

namespace QueryGate

/-!
# Databases

A database answers requests. What it answers may depend on everything that it was sent before, and
it may answer with rows and then fail, or never finish.
-/

/-- A statement with values for its parameters. -/
structure Request where
  sql : String
  params : List String
deriving DecidableEq, Repr

/-- A statement without parameters. -/
def Request.plain (sql : String) : Request := ⟨sql, []⟩

/-- What can go wrong with a database. -/
inductive DatabaseError where
  /-- The database answers with an error. -/
  | returned (message : String)
  /-- The pool of connections is closed. -/
  | closedPool
  /-- No connection could be opened in time. -/
  | noConnection
deriving DecidableEq, Repr

namespace DatabaseError

/-- The text of the error. -/
def message : DatabaseError → String
  | returned m => "error returned from database: " ++ m
  | closedPool => "attempted to acquire a connection on a closed pool"
  | noConnection => "pool timed out while waiting for an open connection"

/-- What brought the error about. -/
def causes : DatabaseError → List String
  | returned m => [m]
  | closedPool | noConnection => []

end DatabaseError

/-- Why an answer is not complete. -/
inductive Fault where
  | failed (error : DatabaseError)
  /-- The rest of the answer never comes. -/
  | unanswered
deriving DecidableEq, Repr

/-- The text of a fault and what brought it about. -/
def Fault.chain : Fault → List String
  | .failed e => e.message :: e.causes
  | .unanswered => ["the database does not answer"]

/-- The answer to a request: rows that have one cell a column, and what cuts them short. -/
structure Reply where
  columns : List String
  rows : List (Vector Cell columns.length)
  fault : Option Fault

/-- A complete answer without rows. -/
def Reply.done : Reply := ⟨[], [], none⟩

/-- An answer without rows that is cut short. -/
def Reply.cut (f : Fault) : Reply := ⟨[], [], some f⟩

/-- How a database answers a request after others. -/
abbrev Database := List Request → Request → Reply

namespace Database

/-- The database behind a closed pool. -/
def closed : Database := fun _ _ => .cut (.failed .closedPool)

/-- Sends requests in order, up to and including the first one with an incomplete answer. -/
def sendAll (db : Database) (sent : List Request) : List Request → List Request × Option Fault
  | [] => (sent, none)
  | r :: rest =>
    match (db sent r).fault with
    | some f => (sent ++ [r], some f)
    | none => sendAll db (sent ++ [r]) rest

end Database

end QueryGate
