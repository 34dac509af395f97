import QueryGate.AllowListSource
import QueryGate.Catalog
import QueryGate.Command.Failure
import QueryGate.Command.Invocation
import QueryGate.Connection
import QueryGate.Settings.Document
import QueryGate.Text.Shown

namespace QueryGate

/-!
# Running commands

A command reads its settings and its statement, asks the gate, and may ask a database. It ends with
a status and with texts for the two output streams. Everything outside the program that it may
depend on is in its `Surroundings`.
-/

/-- What is at a path. -/
inductive FileState where
  | absent
  | unreadable (cause : String)
  | readable (text : String)
deriving DecidableEq, Repr

/-- The text of a file, or why there is none. -/
def FileState.text : FileState → Except String String
  | absent => .error "No such file or directory (os error 2)"
  | unreadable cause => .error cause
  | readable text => .ok text

/-- What a command may depend on besides its arguments. -/
structure Surroundings where
  file : String → FileState
  environment : String → Option String
  network : Network
  /-- What the clock of the system shows. -/
  now : Moment

/-- How a command ends. -/
structure Ending where
  status : Nat
  stdout : String
  stderr : String
  /-- What was sent to the database. -/
  sent : List Request
deriving DecidableEq, Repr

namespace Ending

/-- The command did what it was asked to do. -/
def success (stdout : String) (sent : List Request) : Ending := ⟨0, stdout, "", sent⟩

/-- The statement was rejected. -/
def refusal (stdout stderr : String) (sent : List Request) : Ending := ⟨1, stdout, stderr, sent⟩

/-- The command failed. -/
def failure (f : Failure) (sent : List Request) : Ending := ⟨1, "", f.text, sent⟩

/-- The arguments make no sense. -/
def misuse (usage : String) : Ending := ⟨2, "", usage, []⟩

/-- The command has no answer. -/
def abort (sent : List Request) : Ending := ⟨101, "", "no answer\n", sent⟩

end Ending

/-! ### Settings and statements -/

/-- The file with the settings if none is named. -/
def defaultConfig : String := "vista.yaml"

/-- There is no file with settings. -/
def noConfigEvent : Event := ⟨.debug, "No vista.yaml found, using defaults", []⟩

/-- The settings of a text, or why there are none. -/
def settingsOf (content : Except String String) : Except SettingsError Settings :=
  match content with
  | .error cause => .error (.unreadable cause)
  | .ok text => Settings.read text

/-- The settings in a file. -/
def configAt (w : Surroundings) (path : String) : Except Failure Settings :=
  (settingsOf (w.file path).text).mapError fun e =>
    .toDo ("Failed to load configuration from " ++ Text.shown path) (e.message :: e.causes)

/-- The settings: those of the named file, or of the default file if there is one, or the
defaults. -/
def loadConfig (w : Surroundings) (path : Option String) : Logged (Except Failure Settings) :=
  match path, w.file defaultConfig with
  | some path, _ => return configAt w path
  | none, .absent => do
    .report noConfigEvent
    return .ok .default
  | none, _ => return configAt w defaultConfig

/-- The text of the statement. -/
def StatementSource.read (w : Surroundings) : StatementSource → Except Failure String
  | argument sql => .ok sql
  | file path => (w.file path).text.mapError fun cause =>
    .toDo ("Failed to read SQL from " ++ Text.shown path) [cause]

/-- The gate of the settings and the options. -/
def gateFor (s : Settings) (o : GateOptions) : Except Failure Gate :=
  (Gate.ofSettings (o.apply s.gate)).mapError .ofGateSettings

/-! ### Commands -/

/-- A decision in JSON. -/
def Decision.json : Decision → Json
  | accepted sql => .object [("decision", .text "accepted"), ("sql", .text (String.ofList sql))]
  | rejected r => .object [("decision", .text "rejected"), ("reason", .text r.reason.code),
      ("detail", .text r.detail)]
  | undecided => .null

/-- A decision in a line or two. -/
def Decision.text : Decision → String
  | accepted sql => "ACCEPTED\n" ++ String.ofList sql
  | rejected r => "REJECTED " ++ r.message
  | undecided => ""

/-- Decides about a statement. -/
def check (g : Gate) (tables : List String) (json : Bool) (sql : String) : Logged Ending := do
  let decision ←
    if tables.isEmpty then g.checkShape sql.toList
    else g.prepare (.ofTexts tables none) sql.toList
  let text := (if json then decision.json.pretty else decision.text) ++ "\n"
  match decision with
  | .accepted _ => return .success text []
  | .rejected _ => return .refusal text "" []
  | .undecided => return .abort []

/-- Caps the rows of a statement. -/
def limit (g : Gate) (sql : String) : Logged Ending := do
  let capped ← g.capRows g.settings.rowCap sql.toList
  return .success (String.ofList capped ++ "\n") []

/-- The database of the settings. -/
def connect (w : Surroundings) (s : Settings) : Logged (Except Failure Database) := do
  let answer ← s.connection.connect s.execution w.environment w.network
  return answer.mapError fun e =>
    .toDo "Failed to connect to upstream database" (e.message :: e.causes)

/-- One line a table. -/
def tablesText (schema : String) (names : List String) : String :=
  if names.isEmpty then "No tables in schema '" ++ schema ++ "'\n"
  else String.join (names.map fun name => schema ++ "." ++ name ++ "\n")

/-- Lists the tables of a schema. -/
def listTables (w : Surroundings) (s : Settings) (schema : String) : Logged Ending := do
  match ← connect w s with
  | .error f => return .failure f []
  | .ok db =>
    let sent := [Catalog.listing schema]
    match Catalog.tables db [] schema with
    | .error f => return .failure (.toDo ("Failed to list tables in schema '" ++ schema ++ "'") f.chain) sent
    | .ok names => return .success (tablesText schema names) sent

/-- Shows the rows of a run. -/
def runEnding (r : Run) : Ending :=
  match r.result with
  | .ok output => .success (output.json.pretty ++ "\n") r.sent
  | .error (.rejected rejection) => .refusal "" ("REJECTED " ++ rejection.message ++ "\n") r.sent
  | .error .undecided => .abort r.sent
  | .error e => .failure (.ofExecution e) r.sent

/-- Runs a statement on the tables of a schema. -/
def runStatement (w : Surroundings) (s : Settings) (g : Gate) (schema sql : String) :
    Logged Ending := do
  match ← connect w s with
  | .error f => return .failure f []
  | .ok db =>
    let sent := [Catalog.listing schema]
    let found ← (CachedSource.ofSettings s.cache).lookup (.start w.now) (Catalog.allowedTables db [])
      schema
    match found.answer with
    | none => return .abort sent
    | some (.error f) =>
      return .failure (.toDo ("Failed to load allowed tables for schema '" ++ schema ++ "'") f.chain)
        sent
    | some (.ok allowed) =>
      return runEnding (← Executor.execute ⟨g, s.execution⟩ db sent allowed schema sql.toList)

/-- Does one thing after another, up to the first failure. -/
def orFailure (x : Except Failure α) (f : α → Logged Ending) : Logged Ending :=
  match x with
  | .ok a => f a
  | .error e => return .failure e []

/-- Runs a command with settings. -/
def Command.perform (w : Surroundings) (s : Settings) : Command → Logged Ending
  | .check o names json source =>
    orFailure (source.read w) fun sql => orFailure (gateFor s o) fun g =>
      QueryGate.check g names json sql
  | .limit o source =>
    orFailure (source.read w) fun sql => orFailure (gateFor s o) fun g => QueryGate.limit g sql
  | .tables schema => listTables w s schema
  | .run o schema source =>
    orFailure (source.read w) fun sql => orFailure (gateFor s o) fun g => runStatement w s g schema sql

/-! ### Command lines -/

/-- The environment variable that names the file with the settings. -/
def configVariable : String := "VISTA_CONFIG"

/-- How the program is used. -/
def usage : String :=
  "Usage: vista [--config PATH] [--verbose] COMMAND\n\nCommands:\n" ++
  "  check   decide about a statement\n" ++
  "  limit   print a statement with its rows capped\n" ++
  "  tables  list the tables of a schema\n" ++
  "  run     run a statement and print its rows as JSON\n"

/-- Name and version of the program. -/
def versionText : String := "vista 0.1.0\n"

/-- Runs a command line. -/
def runArguments (w : Surroundings) (arguments : List String) : Logged Ending :=
  match Invocation.ofArguments (w.environment configVariable) arguments with
  | .error .help => return .success usage []
  | .error .version => return .success versionText []
  | .error .misuse => return .misuse usage
  | .ok i => do
    match ← loadConfig w i.config with
    | .error f => return .failure f []
    | .ok s => i.command.perform w s

end QueryGate
