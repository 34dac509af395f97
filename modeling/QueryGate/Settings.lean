import QueryGate.RowLimit

namespace QueryGate

/-!
# Settings

What a gate, its database connection, its cache and its executor are set up with. Every field has
a default; `Settings.check` refuses values that only a mistake can bring about.
-/

/-- The policy of a gate. -/
structure GateSettings where
  dialect : Dialect
  maxRows : Nat
  limitPolicy : LimitPolicy
  /-- Drop semicolons at the end of a statement before counting statements. -/
  allowTrailingSemicolon : Bool
  /-- Forbidden verbs besides those of the dialect. -/
  extraKeywords : List String
  /-- The schema of table names without one. -/
  defaultSchema : Option String
deriving DecidableEq, Repr

/-- Where the database is. -/
structure ConnectionSettings where
  host : String
  port : Nat
  database : String
  username : String
  password : Option String
  /-- An environment variable with an address that replaces all of the above. -/
  credentialsVariable : Option String
deriving DecidableEq, Repr

/-- How long an allow-list is kept. -/
structure CacheSettings where
  ttlSeconds : Nat
deriving DecidableEq, Repr

/-- The bounds on running a statement. -/
structure ExecutionSettings where
  timeoutMs : Nat
  maxConnections : Nat
  readOnly : Bool
deriving DecidableEq, Repr

/-- All settings. -/
structure Settings where
  project : Option String
  gate : GateSettings
  connection : ConnectionSettings
  cache : CacheSettings
  execution : ExecutionSettings
deriving DecidableEq, Repr

/-! ### Defaults -/

/-- A strict gate for a dialect. -/
def GateSettings.forDialect (d : Dialect) : GateSettings :=
  { dialect := d
    maxRows := 1000
    limitPolicy := .preserve
    allowTrailingSemicolon := false
    extraKeywords := []
    defaultSchema := none }

/-- A strict gate for PostgreSQL. -/
def GateSettings.default : GateSettings := .forDialect .postgresql

/-- A PostgreSQL server on this machine. -/
def ConnectionSettings.default : ConnectionSettings :=
  { host := "localhost"
    port := 5432
    database := "postgres"
    username := "postgres"
    password := none
    credentialsVariable := none }

/-- Five minutes. -/
def CacheSettings.default : CacheSettings := ⟨300⟩

/-- Ten seconds, five connections, read-only transactions. -/
def ExecutionSettings.default : ExecutionSettings := ⟨10000, 5, true⟩

/-- The settings of an empty document. -/
def Settings.default : Settings :=
  { project := none
    gate := .default
    connection := .default
    cache := .default
    execution := .default }

/-! ### Errors -/

/-- Why settings are refused. -/
inductive SettingsError where
  /-- The file cannot be read. -/
  | unreadable (cause : String)
  /-- The document is no YAML, or a field has the wrong type. -/
  | malformed
  /-- An extra keyword is not a single word. -/
  | notAWord (entry : String)
  | blankSchema
  | zeroTimeout
  | zeroConnections
deriving DecidableEq, Repr

/-- The text of the error. -/
def SettingsError.message : SettingsError → String
  | unreadable cause => "IO error: " ++ cause
  | malformed => "YAML parse error"
  | notAWord entry =>
    "Configuration error: extra_forbidden_keywords entry '" ++ entry ++
      "' is not a single SQL word"
  | blankSchema => "Configuration error: default_schema must not be blank"
  | zeroTimeout =>
    "Configuration error: execution.statement_timeout_ms must be greater than zero"
  | zeroConnections => "Configuration error: execution.max_connections must be greater than zero"

/-- What brought the error about. -/
def SettingsError.causes : SettingsError → List String
  | unreadable cause => [cause]
  | malformed => ["the document does not describe settings"]
  | _ => []

/-! ### Checks -/

/-- Whether a text is one or more ASCII letters, digits and underscores. -/
def isPlainWord (s : String) : Bool :=
  !s.isEmpty && s.toList.all fun c => c.isAlphanum || c == '_'

/-- Refuses extra keywords that are no words, and then a blank schema. -/
def GateSettings.check (g : GateSettings) : Except SettingsError Unit :=
  match g.extraKeywords.find? (!isPlainWord ·) with
  | some entry => .error (.notAWord entry)
  | none =>
    if g.defaultSchema.any fun s => (Text.trim s.toList).isEmpty then .error .blankSchema
    else .ok ()

/-- Refuses a timeout of zero, and then a pool without connections. -/
def ExecutionSettings.check (e : ExecutionSettings) : Except SettingsError Unit :=
  if e.timeoutMs = 0 then .error .zeroTimeout
  else if e.maxConnections = 0 then .error .zeroConnections
  else .ok ()

/-- Checks the gate and then the execution. -/
def Settings.check (s : Settings) : Except SettingsError Unit := do
  s.gate.check
  s.execution.check

/-! ### Derived values -/

/-- The row cap: at least one row. -/
def GateSettings.rowCap (g : GateSettings) : Nat := max 1 g.maxRows

/-- The address of the database, given the environment: the variable for credentials wins where
it is set. -/
def ConnectionSettings.address (c : ConnectionSettings) (environment : String → Option String) :
    String :=
  match c.credentialsVariable.bind environment with
  | some address => address
  | none =>
    let user := match c.password with
      | some password => c.username ++ ":" ++ password
      | none => c.username
    "postgresql://" ++ user ++ "@" ++ c.host ++ ":" ++ toString c.port ++ "/" ++ c.database

end QueryGate
