import QueryGate.Rules
import QueryGate.Settings

namespace QueryGate

/-!
# The gate

A gate holds statements to the rules of its settings and caps the rows that they return. It says
in the log that it decided, and why, but never quotes a statement.
-/

/-- A gate with checked settings. -/
structure Gate where
  settings : GateSettings
deriving DecidableEq, Repr

/-- Settings that no gate can be built from. -/
def SettingsError.gateMessage (e : SettingsError) : String :=
  "invalid guard configuration: " ++ e.message

namespace Gate

/-- The gate with these settings, if they pass the check. -/
def ofSettings (g : GateSettings) : Except SettingsError Gate := do
  g.check
  return ⟨g⟩

/-- The dialect of the statements. -/
def dialect (g : Gate) : Dialect := g.settings.dialect

/-- The forbidden words. -/
def vocabulary (g : Gate) : Vocabulary := .of g.dialect g.settings.extraKeywords

/-- The rules that statements are held to. -/
def rules (g : Gate) : Rules :=
  ⟨g.vocabulary, g.settings.allowTrailingSemicolon, g.settings.defaultSchema⟩

/-! ### Events -/

/-- A statement was rejected. -/
def rejectedEvent (g : Gate) (sql : List Char) (r : Rejection) : Event :=
  ⟨.info, "SQL statement rejected",
    [("reason", .text r.reason.code), ("dialect", .text g.dialect.name),
      ("statement_len", .count (String.ofList sql).utf8ByteSize)]⟩

/-- A statement met the rules before it was capped and does not any more. -/
def recheckEvent (g : Gate) (r : Rejection) : Event :=
  ⟨.warn, "Row-capped statement failed re-validation",
    [("reason", .text r.reason.code), ("dialect", .text g.dialect.name)]⟩

/-- A statement was accepted. -/
def acceptedEvent (g : Gate) (maxRows : Nat) (allowed : AllowList) : Event :=
  ⟨.debug, "SQL statement accepted",
    [("dialect", .text g.dialect.name), ("max_rows", .count maxRows),
      ("tables", .count allowed.entries.length)]⟩

/-! ### Decisions -/

/-- Rejects a statement and says so. -/
def reject (g : Gate) (sql : List Char) (r : Rejection) : Logged Decision := do
  .report (g.rejectedEvent sql r)
  return .rejected r

/-- The decision on a refusal. -/
def refuse (g : Gate) (sql : List Char) : Refusal → Logged Decision
  | .rejected r => g.reject sql r
  | .undecided => return .undecided

/-- Decides by the rules on the shape of a statement alone. -/
def checkShape (g : Gate) (sql : List Char) : Logged Decision :=
  match g.rules.checkShape sql with
  | .ok statement => return .accepted statement
  | .error r => g.reject sql r

/-- Whether the rules on the shape of a statement hold. -/
def isSelectOnly (g : Gate) (sql : List Char) : Bool := (g.rules.checkShape sql).isOk

/-- Decides by all rules. The accepted text has no row cap. -/
def validate (g : Gate) (allowed : AllowList) (sql : List Char) : Logged Decision :=
  match g.rules.check allowed sql with
  | .ok statement => return .accepted statement
  | .error r => g.refuse sql r

/-- Caps the rows that a statement returns. -/
def capRows (g : Gate) (maxRows : Nat) (sql : List Char) : Logged (List Char) :=
  RowLimit.enforce g.dialect g.settings.limitPolicy maxRows sql

/-- The explicit limit of a statement, where it is above the maximum and limits above it are
rejected. -/
def excess? (g : Gate) (maxRows : Nat) (statement : List Char) : Option Nat :=
  if g.settings.limitPolicy = .reject then
    match explicitLimit g.dialect statement with
    | .rows n => if n > maxRows then some n else none
    | _ => none
  else none

/-- Caps a statement that met the rules, and holds the capped text to them again. -/
def capAndRecheck (g : Gate) (allowed : AllowList) (maxRows : Nat) (sql statement : List Char) :
    Logged Decision := do
  let limited ← g.capRows maxRows statement
  match g.rules.check allowed limited with
  | .error (.rejected r) =>
    .report (g.recheckEvent r)
    g.reject sql r
  | .error .undecided => return .undecided
  | .ok _ =>
    .report (g.acceptedEvent maxRows allowed)
    return .accepted limited

/-- Decides by all rules and caps at a maximum of rows, at least one. The accepted text is one
query that is ready to run. -/
def prepareWithin (g : Gate) (allowed : AllowList) (maxRows : Nat) (sql : List Char) :
    Logged Decision :=
  match g.rules.check allowed sql with
  | .error r => g.refuse sql r
  | .ok statement =>
    let maxRows := max 1 maxRows
    match g.excess? maxRows statement with
    | some requested => g.reject sql (.limitExceeded requested maxRows)
    | none => g.capAndRecheck allowed maxRows sql statement

/-- Decides by all rules and caps at the maximum of the settings. -/
def prepare (g : Gate) (allowed : AllowList) (sql : List Char) : Logged Decision :=
  g.prepareWithin allowed g.settings.maxRows sql

end Gate

end QueryGate
