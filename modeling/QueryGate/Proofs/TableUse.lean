import Mathlib
import QueryGate.Relations

namespace QueryGate

open Sql

/-!
# Where a statement names tables

The places of a statement where a table or view is named, each with the common table expressions
that are visible there.  Scope is passed down the tree:

* the `i`-th query of a `WITH` clause sees what is visible around the clause and the expressions
  before it, and under `WITH RECURSIVE` its own name as well;
* the body of the query that owns the clause, and the clauses after the body, see all of them;
* nothing outside that query sees any.

`Query.uses` lists the places from left to right.  It knows no depth and keeps no stack, so it is
what the walk of `Relations` is held against.
-/

/-- How a table is named: as an item of `FROM` or `JOIN`, or by `TABLE` in the place of a
    body. -/
inductive TableRef where
  | relation (name : Name)
  | whole (schema : Option String) (table : String)
deriving DecidableEq, Repr

/-- A place where a table is named, with the names of the common table expressions that are
    visible there, the outermost first. -/
structure TableUse where
  scope : List Ident
  ref : TableRef
deriving DecidableEq, Repr

/-- The texts of identifiers in lower case. -/
def lowerNames (is : List Ident) : List String := is.map fun i => Text.lower i.text

/-- Whether one of these identifiers is `name` in lower case. -/
def boundIn (scope : List Ident) (name : String) : Bool := (lowerNames scope).contains name

namespace TableRef

/-- The name of the table, in lower case. -/
def name : TableRef → TableName
  | relation n => TableName.ofName n
  | whole schema table => ⟨(schema.toList ++ [table]).map Text.lower⟩

/-- Whether the table is an item of `FROM` or `JOIN`. -/
def isRelation : TableRef → Bool
  | relation _ => true
  | whole _ _ => false

end TableRef

namespace TableUse

/-- Whether the name is that of a common table expression, compared in lower case. -/
def isHidden (u : TableUse) : Bool :=
  !u.ref.name.isQualified && boundIn u.scope u.ref.name.table

/-- The table that an item of `FROM` or `JOIN` reads, if its name is no common table
    expression's. -/
def read? (u : TableUse) : Option TableName :=
  if u.ref.isRelation && !u.isHidden then some u.ref.name else none

end TableUse

mutual

/-- The uses of tables in a query. -/
def Sql.Query.uses (scope : List Ident) : Query → List TableUse
  | .mk recursive ctes body tail _ =>
    let inner := scope ++ ctes.map Cte.name
    cteUses scope recursive ctes ++ body.uses inner ++ queryUses inner tail

/-- The uses of tables in the queries of common table expressions. -/
def cteUses (scope : List Ident) (recursive : Bool) : List Cte → List TableUse
  | [] => []
  | .mk name q :: cs =>
    q.uses (if recursive then scope ++ [name] else scope) ++ cteUses (scope ++ [name]) recursive cs

/-- The uses of tables in a body. -/
def Sql.Body.uses (scope : List Ident) : Body → List TableUse
  | .select _ reads => readUses scope reads
  | .values queries => queryUses scope queries
  | .nested q => q.uses scope
  | .combined left right => left.uses scope ++ right.uses scope
  | .table schema table => [⟨scope, .whole schema table⟩]
  | .change _ reads => readUses scope reads

/-- The uses of tables in what a body reads. -/
def readUses (scope : List Ident) : List Read → List TableUse
  | [] => []
  | .relation name :: rs => ⟨scope, .relation name⟩ :: readUses scope rs
  | .query q :: rs => q.uses scope ++ readUses scope rs

/-- The uses of tables in queries in a row. -/
def queryUses (scope : List Ident) : List Query → List TableUse
  | [] => []
  | q :: qs => q.uses scope ++ queryUses scope qs

end

/-- The uses of tables in a statement: nothing is visible around it. -/
def Sql.Statement.uses : Statement → List TableUse
  | .query q => q.uses []
  | .change _ reads => readUses [] reads

/-! ### Names in scope -/

@[simp] theorem lowerNames_append (is js : List Ident) :
    lowerNames (is ++ js) = lowerNames is ++ lowerNames js := List.map_append

@[simp] theorem lowerNames_length (is : List Ident) : (lowerNames is).length = is.length :=
  List.length_map _

@[simp] theorem boundIn_append (scope more : List Ident) (name : String) :
    boundIn (scope ++ more) name = (boundIn scope name || boundIn more name) := by
  rw [boundIn, lowerNames_append, List.contains_append]; rfl

/-- A name is bound in a scope if some identifier of it has that lower case. -/
theorem boundIn_iff (scope : List Ident) (name : String) :
    boundIn scope name = true ↔ ∃ i ∈ scope, Text.lower i.text = name := by
  rw [boundIn, List.contains_iff_mem, lowerNames, List.mem_map]

/-- The names that a clause binds are those of its expressions in lower case. -/
theorem boundNames_eq_lowerNames (cs : List Cte) : boundNames cs = lowerNames (cs.map Cte.name) := by
  rw [boundNames, lowerNames, List.map_map]; rfl

/-- A use reads a table if it is a relation and nothing in scope hides it. -/
theorem TableUse.read?_eq_some_iff (u : TableUse) (n : TableName) :
    u.read? = some n ↔ u.ref.isRelation = true ∧ u.isHidden = false ∧ u.ref.name = n := by
  simp only [read?]
  split <;> simp_all

end QueryGate
