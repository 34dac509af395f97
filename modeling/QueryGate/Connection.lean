import QueryGate.Database
import QueryGate.Event
import QueryGate.Settings

namespace QueryGate

/-!
# Connections

How a database is reached: the settings and the environment give an address, and what is at the
address is a database or an error.
-/

/-- What is at an address. -/
abbrev Network := String → Except DatabaseError Database

namespace ConnectionSettings

/-- A connection is about to be opened. -/
def connectingEvent (c : ConnectionSettings) (e : ExecutionSettings) : Event :=
  ⟨.debug, "Connecting to upstream Postgres",
    [("host", .text c.host), ("port", .count c.port), ("database", .text c.database),
      ("max_connections", .count e.maxConnections)]⟩

/-- Opens a pool of connections. -/
def connect (c : ConnectionSettings) (e : ExecutionSettings)
    (environment : String → Option String) (network : Network) :
    Logged (Except DatabaseError Database) := do
  .report (c.connectingEvent e)
  return network (c.address environment)

end ConnectionSettings

end QueryGate
