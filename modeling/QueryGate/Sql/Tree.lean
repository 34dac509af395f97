namespace QueryGate.Sql

/-!
# Queries

The tree of a query, as far as it decides what the query reads and whether it only reads. Of an
expression it keeps the queries inside, from left to right; of a `FROM` clause the relations and
the queries, in order; clauses that can hold neither leave no trace.
-/

/-- An identifier with its opening quote, if it is quoted. -/
structure Ident where
  text : String
  quote : Option Char
deriving DecidableEq, Repr, Inhabited

/-- A dotted name. -/
abbrev Name := List Ident

/-- What a statement does to the rows of a table. -/
inductive Change where
  | insert
  | update
  | delete
  | merge
deriving DecidableEq, Repr

/-- A row lock that a query takes. -/
inductive Lock where
  | forUpdate
  | forShare
deriving DecidableEq, Repr

mutual

/-- A query: its common table expressions, its body, the queries inside the clauses after the
body, and its locks. `recursive` says whether `WITH` is `WITH RECURSIVE`. -/
inductive Query where
  | mk (recursive : Bool) (ctes : List Cte) (body : Body) (tail : List Query) (locks : List Lock)

/-- A common table expression. -/
inductive Cte where
  | mk (name : Ident) (query : Query)

/-- The body of a query. -/
inductive Body where
  /-- `SELECT`; a target in `into` makes it a statement that writes. -/
  | select (into : Option Name) (reads : List Read)
  /-- `VALUES`, with the queries among the values. -/
  | values (queries : List Query)
  /-- A query in parentheses. -/
  | nested (query : Query)
  /-- A union, an intersection or a difference. -/
  | combined (left right : Body)
  /-- `TABLE name` or `TABLE schema.name`. -/
  | table (schema : Option String) (name : String)
  /-- A data-changing statement in the place of a query. -/
  | change (kind : Change) (reads : List Read)

/-- One thing that a body reads. -/
inductive Read where
  | relation (name : Name)
  | query (query : Query)

end

namespace Query

/-- The common table expressions, in order. -/
def ctes : Query → List Cte
  | mk _ cs _ _ _ => cs

/-- The body. -/
def body : Query → Body
  | mk _ _ b _ _ => b

/-- The queries inside the clauses after the body, in order. -/
def tail : Query → List Query
  | mk _ _ _ qs _ => qs

/-- The row locks, in order. -/
def locks : Query → List Lock
  | mk _ _ _ _ ls => ls

end Query

/-- The name that a common table expression binds. -/
def Cte.name : Cte → Ident
  | mk n _ => n

/-- The query that a common table expression stands for. -/
def Cte.query : Cte → Query
  | mk _ q => q

/-- A statement: a query, or a data-changing statement with what it reads. -/
inductive Statement where
  | query (query : Query)
  | change (kind : Change) (reads : List Read)

end QueryGate.Sql
