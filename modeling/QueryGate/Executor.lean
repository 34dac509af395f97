import QueryGate.Clock
import QueryGate.Database
import QueryGate.Gate

namespace QueryGate

/-!
# Running statements

An executor sends a statement only after the gate accepts it, in a transaction of its own that is
always rolled back. The plan is fixed: `Executor.opening`, the accepted statement, and
`Executor.rollback`. Each request is sent once, and the first one that is not answered in full ends
the run without an output.
-/

/-- The rows of a statement. -/
structure QueryOutput where
  /-- The statement as it was sent. -/
  statement : String
  columns : List String
  rows : List Json
  /-- Whether there were more rows than the cap allows. -/
  truncated : Bool

namespace QueryOutput

/-- The output in JSON. -/
def json (o : QueryOutput) : Json :=
  .object [("statement", .text o.statement), ("columns", .texts o.columns), ("rows", .list o.rows),
    ("truncated", .bool o.truncated)]

end QueryOutput

/-- Why there is no output. -/
inductive ExecutionError where
  | rejected (rejection : Rejection)
  | database (error : DatabaseError)
  /-- The database did not finish in time. -/
  | timeout (limit : Duration)
  /-- The gate has no decision about the statement. -/
  | undecided
deriving DecidableEq, Repr

namespace ExecutionError

/-- The text of the error. -/
def message : ExecutionError → String
  | rejected r => "statement rejected: " ++ r.message
  | database e => "database error: " ++ e.message
  | timeout limit => "query did not finish within " ++ limit.text
  | undecided => "statement not decided"

/-- What the author of the statement is told. -/
def publicMessage : ExecutionError → String
  | rejected _ | undecided => Rejection.publicMessage
  | database _ => "query failed"
  | timeout _ => "query timed out"

/-- What brought the error about. -/
def causes : ExecutionError → List String
  | rejected r => [r.message]
  | database e => e.message :: e.causes
  | timeout _ | undecided => []

end ExecutionError

/-- A run: what was sent, and how it ended. -/
structure Run where
  sent : List Request
  result : Except ExecutionError QueryOutput

/-- A gate with bounds on running statements. -/
structure Executor where
  gate : Gate
  settings : ExecutionSettings
deriving DecidableEq, Repr

namespace Executor

/-! ### Requests -/

/-- Opens the transaction. -/
def begin : Request := .plain "BEGIN"

/-- Forbids writes in the transaction. -/
def readOnly : Request := .plain "SET TRANSACTION READ ONLY"

/-- Bounds the time of each statement of the transaction. -/
def timeout (ms : Nat) : Request :=
  ⟨"SELECT set_config('statement_timeout', $1, true)", [toString ms ++ "ms"]⟩

/-- Looks names up in a schema for the rest of the transaction. -/
def searchPath (schema : String) : Request :=
  ⟨"SELECT set_config('search_path', quote_ident($1), true)", [schema]⟩

/-- Closes the transaction and undoes it. -/
def rollback : Request := .plain "ROLLBACK"

/-- The requests before the statement. -/
def opening (s : ExecutionSettings) (schema : Option String) : List Request :=
  begin :: (if s.readOnly then [readOnly] else []) ++ timeout s.timeoutMs ::
    (schema.map searchPath).toList

/-! ### Rows -/

/-- A row as an object. Of two columns with one name the later one counts. -/
def rowJson (columns : List String) (row : Vector Cell columns.length) : Json :=
  .ofMembers (columns.zip (row.toList.map Cell.json))

/-- What is kept of an answer while its rows arrive. -/
structure Received where
  columns : List String
  rows : List Json
  truncated : Bool

/-- Nothing has arrived. -/
def Received.nothing : Received := ⟨[], [], false⟩

/-- Takes the rows of an answer as they arrive.  The names of the columns come with the first row.
The first row beyond the maximum is not kept, and nothing behind it is looked at, not even a fault. -/
def receive (maxRows : Nat) (columns : List String) (fault : Option Fault) (r : Received) :
    List (Vector Cell columns.length) → Except Fault Received
  | [] =>
    match fault with
    | some f => .error f
    | none => .ok r
  | row :: rest =>
    let r := { r with columns := if r.columns.isEmpty then columns else r.columns }
    if maxRows ≤ r.rows.length then .ok { r with truncated := true }
    else receive maxRows columns fault { r with rows := r.rows ++ [rowJson columns row] } rest

/-- The output of a statement: what is kept of the answer to it. -/
def output (statement : String) (maxRows : Nat) (reply : Reply) : Except Fault QueryOutput := do
  let r ← receive maxRows reply.columns reply.fault .nothing reply.rows
  return { statement, columns := r.columns, rows := r.rows, truncated := r.truncated }

/-! ### Events -/

/-- A statement ran. -/
def finishedEvent (o : QueryOutput) (schema : Option String) : Event :=
  ⟨.debug, "Guarded query finished",
    [("rows", .count o.rows.length), ("truncated", .flag o.truncated),
      ("search_schema", .text (schema.getD ""))]⟩

/-- A statement took too long. The milliseconds are counted in 64 bits. -/
def abandonedEvent (limit : Duration) : Event :=
  ⟨.warn, "Guarded query abandoned after client timeout",
    [("timeout_ms", .count (limit.millis % Nat.pow 2 64))]⟩

/-! ### Runs -/

/-- How long to wait for the database: a second more than it may take for a statement. -/
def deadline (s : ExecutionSettings) : Duration :=
  ⟨(Duration.ofMillis s.timeoutMs).ns + (Duration.ofSeconds 1).ns⟩

/-- Sends an accepted statement between the opening and the rollback. -/
def transact (db : Database) (sent : List Request) (s : ExecutionSettings)
    (schema : Option String) (maxRows : Nat) (statement : String) :
    List Request × Except Fault QueryOutput :=
  match db.sendAll sent (opening s schema) with
  | (sent, some f) => (sent, .error f)
  | (sent, none) =>
    let request := Request.plain statement
    match output statement maxRows (db sent request) with
    | .error f => (sent ++ [request], .error f)
    | .ok o =>
      match db.sendAll (sent ++ [request]) [rollback] with
      | (sent, some f) => (sent, .error f)
      | (sent, none) => (sent, .ok o)

/-- Runs an accepted statement. -/
def run (e : Executor) (db : Database) (sent : List Request) (schema : Option String)
    (statement : String) : Logged Run :=
  match transact db sent e.settings schema e.gate.settings.rowCap statement with
  | (sent, .ok o) => do
    .report (finishedEvent o schema)
    return ⟨sent, .ok o⟩
  | (sent, .error (.failed error)) => return ⟨sent, .error (.database error)⟩
  | (sent, .error .unanswered) => do
    .report (abandonedEvent (deadline e.settings))
    return ⟨sent, .error (.timeout (deadline e.settings))⟩

/-- Runs a statement if the gate accepts it. Names in it are looked up in the given schema. -/
def execute (e : Executor) (db : Database) (sent : List Request) (allowed : AllowList)
    (schema : Option String) (sql : List Char) : Logged Run := do
  match ← e.gate.prepare allowed sql with
  | .accepted statement => e.run db sent schema (String.ofList statement)
  | .rejected r => return ⟨sent, .error (.rejected r)⟩
  | .undecided => return ⟨sent, .error .undecided⟩

end Executor

end QueryGate
