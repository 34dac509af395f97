import QueryGate.Command.Option
import QueryGate.Settings

namespace QueryGate

/-!
# Commands

What the arguments of a command line ask for.
-/

/-- Settings of the gate that go before those of the file. -/
structure GateOptions where
  dialect : Option Dialect
  maxRows : Option Nat
  defaultSchema : Option String
  allowTrailingSemicolon : Bool
deriving DecidableEq, Repr

/-- The settings of a gate with the options in their place. -/
def GateOptions.apply (o : GateOptions) (s : GateSettings) : GateSettings :=
  { s with
    dialect := o.dialect.getD s.dialect
    maxRows := o.maxRows.getD s.maxRows
    defaultSchema := o.defaultSchema <|> s.defaultSchema
    allowTrailingSemicolon := o.allowTrailingSemicolon || s.allowTrailingSemicolon }

/-- Where a statement comes from. -/
inductive StatementSource where
  | argument (sql : String)
  | file (path : String)
deriving DecidableEq, Repr

/-- A command. -/
inductive Command where
  /-- Decides about a statement; on its shape alone if no tables are given. -/
  | check (gate : GateOptions) (tables : List String) (json : Bool) (source : StatementSource)
  /-- Caps the rows of a statement. -/
  | limit (gate : GateOptions) (source : StatementSource)
  /-- Lists the tables of a schema. -/
  | tables (schema : String)
  /-- Runs a statement on the tables of a schema. -/
  | run (gate : GateOptions) (schema : String) (source : StatementSource)
deriving DecidableEq, Repr

/-- A command and what holds for any command. -/
structure Invocation where
  /-- The file with the settings. -/
  config : Option String
  /-- Whether to log what only a developer wants to know. -/
  verbose : Bool
  command : Command
deriving DecidableEq, Repr

/-- The names of the commands. -/
inductive CommandName where
  | check
  | limit
  | tables
  | run
deriving DecidableEq, Repr

namespace CommandName

/-- The command of a name. -/
def ofText? : String → Option CommandName
  | "check" => some check
  | "limit" => some limit
  | "tables" => some tables
  | "run" => some run
  | _ => none

/-- The options for the gate. -/
def gateOptions : List CommandOption :=
  [.dialect, .maxRows, .defaultSchema, .allowTrailingSemicolon]

/-- The options of a command of its own. -/
def options : CommandName → List CommandOption
  | check => gateOptions ++ [.tables, .json, .sql, .file]
  | limit => gateOptions ++ [.sql, .file]
  | tables => [.schema]
  | run => gateOptions ++ [.schema, .sql, .file]

end CommandName

namespace GivenOptions

/-- The options for the gate. -/
def gate (given : GivenOptions) : GateOptions :=
  { dialect := (given.value? .dialect).bind fun v => (Dialect.read v).toOption
    maxRows := (given.value? .maxRows).bind CommandOption.count?
    defaultSchema := given.value? .defaultSchema
    allowTrailingSemicolon := given.has .allowTrailingSemicolon }

/-- The source of the statement: there must be exactly one. -/
def source (given : GivenOptions) : Except Interruption StatementSource :=
  match given.value? .sql, given.value? .file with
  | some sql, none => .ok (.argument sql)
  | none, some path => .ok (.file path)
  | _, _ => .error .misuse

/-- The tables, which are separated by commas. -/
def tables (given : GivenOptions) : List String :=
  (given.values .tables).flatMap fun v => v.splitOn ","

/-- The schema. -/
def schema (given : GivenOptions) : String := (given.value? .schema).getD "public"

/-- The command of a name with these options. -/
def command (given : GivenOptions) : CommandName → Except Interruption Command
  | .check => return .check given.gate given.tables (given.has .json) (← given.source)
  | .limit => return .limit given.gate (← given.source)
  | .tables => return .tables given.schema
  | .run => return .run given.gate given.schema (← given.source)

end GivenOptions

namespace Invocation

/-- The options of any command. -/
def commonOptions : List CommandOption := [.config, .verbose, .help]

/-- What the words after `help` ask for. -/
def helpOn : List String → Interruption
  | [] => .help
  | [name] => if name = "help" || (CommandName.ofText? name).isSome then .help else .misuse
  | _ => .misuse

/-- The arguments of a command line. The file with the settings is named by an option after the
command, by one before it, or by the environment. -/
def ofArguments (configured : Option String) (arguments : List String) :
    Except Interruption Invocation := do
  let (outer, word) ← GivenOptions.read (.version :: commonOptions) [] none arguments
  let some (name, rest) := word | .error .misuse
  if name = "help" then .error (helpOn rest)
  let some kind := CommandName.ofText? name | .error .misuse
  let (inner, word) ← GivenOptions.read (kind.options ++ commonOptions) [] none rest
  if word.isSome then .error .misuse
  let command ← inner.command kind
  if configured = some "" then .error .misuse
  return {
    config := inner.value? .config <|> outer.value? .config <|> configured
    verbose := inner.has .verbose || outer.has .verbose
    command }

end Invocation

end QueryGate
