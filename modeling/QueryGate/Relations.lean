import QueryGate.Sql.Parser
import QueryGate.TableName

namespace QueryGate

/-!
# Relations of a statement

The tables that a statement reads, without the names that its common table expressions bind. A
statement is walked from left to right; `Walk` keeps the `WITH` clauses around the place reached,
and how many of their queries have been left, so that a name is visible from where it is bound to
the end of the query that owns it.
-/

open Sql

/-- One step of a walk through a statement. -/
inductive Visit where
  /-- Into a query, with whether its `WITH` is recursive and the names that it binds. -/
  | enter (recursive : Bool) (bound : List String)
  /-- Out of a query. -/
  | leave
  /-- Past the name of a table. -/
  | table (name : Name)
deriving DecidableEq, Repr

/-- The names that a query binds, in lower case. -/
def boundNames (ctes : List Cte) : List String := ctes.map fun c => Text.lower c.name.text

mutual

/-- The walk through a query. -/
def Sql.Query.visits : Query → List Visit
  | .mk recursive ctes body tail _ =>
    .enter recursive (boundNames ctes) ::
      (cteVisits ctes ++ body.visits ++ queryVisits tail ++ [.leave])

/-- The walk through the queries of common table expressions. -/
def cteVisits : List Cte → List Visit
  | [] => []
  | .mk _ q :: cs => q.visits ++ cteVisits cs

/-- The walk through a body. -/
def Sql.Body.visits : Body → List Visit
  | .select _ reads => readVisits reads
  | .values queries => queryVisits queries
  | .nested q => q.visits
  | .combined left right => left.visits ++ right.visits
  | .table _ _ => []
  | .change _ reads => readVisits reads

/-- The walk through what a body reads. -/
def readVisits : List Read → List Visit
  | [] => []
  | .relation name :: rs => .table name :: readVisits rs
  | .query q :: rs => q.visits ++ readVisits rs

/-- The walk through queries in a row. -/
def queryVisits : List Query → List Visit
  | [] => []
  | q :: qs => q.visits ++ queryVisits qs

end

/-- The walk through a statement. -/
def Sql.Statement.visits : Statement → List Visit
  | .query q => q.visits
  | .change _ reads => readVisits reads

/-- A `WITH` clause that a walk is inside the query of. -/
structure Scope where
  /-- How many queries are around the place in the query that owns the clause, that one
  included. -/
  depth : Nat
  names : List String
  recursive : Bool
  /-- How many of the clause's own queries have been left. -/
  finished : Nat
deriving DecidableEq, Repr

namespace Scope

/-- Whether all queries of the clause have been left. -/
def isComplete (s : Scope) : Bool := s.names.length ≤ s.finished

/-- The names that are visible `depth` queries deep: inside a query of the clause those bound
before it, and its own if the clause is recursive; behind the clause all of them. -/
def visible (s : Scope) (depth : Nat) : List String :=
  if s.depth < depth && !s.isComplete then
    s.names.take (s.finished + if s.recursive then 1 else 0)
  else s.names

end Scope

/-- Where a walk has come to, and the tables it has passed. -/
structure Walk where
  depth : Nat
  /-- The innermost clause first. -/
  scopes : List Scope
  tables : List TableName
deriving DecidableEq, Repr

namespace Walk

/-- The start of a walk. -/
def start : Walk := ⟨0, [], []⟩

/-- Whether a name is bound where the walk has come to. -/
def binds (w : Walk) (name : String) : Bool :=
  w.scopes.any fun s => (s.visible w.depth).contains name

/-- Ends the scope of the query that is left, if it owns one. -/
def closeScope (depth : Nat) : List Scope → List Scope
  | s :: ss => if s.depth = depth then ss else s :: ss
  | [] => []

/-- Counts a query that is left among those of the clause it stands in. -/
def countFinished (depth : Nat) : List Scope → List Scope
  | s :: ss =>
    if s.depth = depth && !s.isComplete then { s with finished := s.finished + 1 } :: ss
    else s :: ss
  | [] => []

/-- One step further. -/
def step (w : Walk) : Visit → Walk
  | .enter recursive bound =>
    let depth := w.depth + 1
    { w with
      depth
      scopes := if bound.isEmpty then w.scopes else ⟨depth, bound, recursive, 0⟩ :: w.scopes }
  | .leave =>
    let depth := w.depth - 1
    { w with depth, scopes := countFinished depth (closeScope w.depth w.scopes) }
  | .table name =>
    let table := TableName.ofName name
    if !table.isQualified && w.binds table.table then w
    else { w with tables := w.tables ++ [table] }

end Walk

/-- The items without those that are there before. -/
def firstOccurrences [BEq α] (xs : List α) : List α :=
  xs.foldl (fun seen x => if seen.contains x then seen else seen ++ [x]) []

/-- The tables that a statement reads, in the order in which they appear first. -/
def Sql.Statement.tables (s : Statement) : List TableName :=
  firstOccurrences (s.visits.foldl Walk.step .start).tables

/-- The tables that the statements of a text read. -/
def referencedTables (d : Dialect) (sql : List Char) : Except ParseError (List TableName) :=
  return (← parse d sql).flatMap Statement.tables

end QueryGate
