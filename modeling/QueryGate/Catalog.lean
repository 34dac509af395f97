import QueryGate.AllowList
import QueryGate.Database
import QueryGate.Event

namespace QueryGate

/-!
# The catalog

The tables and views of a schema, as the database itself lists them, and the allow-list of all of
them.
-/

namespace Catalog

/-- Asks for the names of the tables and views of a schema. -/
def listing (schema : String) : Request :=
  ⟨"select table_name from information_schema.tables where table_schema = $1 " ++
    "and table_type in ('BASE TABLE', 'VIEW') order by table_name", [schema]⟩

/-- The text in the first cell of a row. -/
def firstText? (row : List Cell) : Option String :=
  match row with
  | .text s :: _ => some s
  | _ => none

/-- The names of the tables and views of a schema. -/
def tables (db : Database) (sent : List Request) (schema : String) : Except Fault (List String) :=
  let reply := db sent (listing schema)
  match reply.fault with
  | some f => .error f
  | none => .ok (reply.rows.filterMap fun row => firstText? row.toList)

/-- The allow-list of these tables of a schema. A name is one part, whatever characters it has. -/
def allowList (schema : String) (names : List String) : AllowList :=
  .ofNames (names.map fun name => .ofParts [schema, name]) (some schema)

/-- A schema without tables. -/
def noTablesEvent (schema : String) : Event :=
  ⟨.warn, "Schema has no visible tables", [("schema", .text schema)]⟩

/-- The allow-list of all tables and views of a schema. -/
def allowedTables (db : Database) (sent : List Request) (schema : String) :
    Logged (Except Fault AllowList) :=
  match tables db sent schema with
  | .error f => return .error f
  | .ok names => do
    if names.isEmpty then .report (noTablesEvent schema)
    return .ok (allowList schema names)

end Catalog

end QueryGate
