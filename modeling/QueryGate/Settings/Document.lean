import QueryGate.Settings
import QueryGate.Text.Count
import QueryGate.Yaml.Writer

namespace QueryGate

/-!
# Settings in a document

Settings are a mapping with one mapping in it for each part. What is left out takes its default,
and names that are not known are passed over; but a known name stands once, and its value has the
right type. `Settings.toNode` writes every value, and leaves out optional texts that are not
there, apart from the project.
-/

open Yaml

/-! ### Values -/

/-- Whether a plain scalar stands for no value. -/
def isNull (text : String) : Bool := ["", "~", "null", "Null", "NULL"].contains text

/-- A text, however the scalar is written. -/
def readText? : Node → Option String
  | .scalar text _ _ => some text
  | _ => none

/-- The tag of a core type. -/
def coreTag (type : String) : String := "tag:yaml.org,2002:" ++ type

/-- A text, or no value. -/
def readOptionalText? : Node → Option (Option String)
  | .scalar text .plain none => some (if isNull text then none else some text)
  | .scalar text .plain (some tag) =>
    if tag == coreTag "null" then (if isNull text then some none else none) else some (some text)
  | .scalar text _ _ => some (some text)
  | _ => none

/-- The text of a scalar that is plain, or a literal block with the tag of the right type. -/
def typedText? (type : String) : Node → Option String
  | .scalar text .plain _ => some text
  | .scalar text .literal (some tag) => if tag == coreTag type then some text else none
  | _ => none

/-- A truth value. -/
def readFlag? (n : Node) : Option Bool := do
  let text ← typedText? "bool" n
  if ["true", "True", "TRUE"].contains text then some true
  else if ["false", "False", "FALSE"].contains text then some false
  else none

/-- The value of digits in a base, at least one of them. -/
def digitsValue? (base : Nat) (cs : List Char) : Option Nat :=
  if cs.isEmpty then none
  else cs.foldlM (fun n c => do
    let d ← hexDigit? c
    if d < base then some (base * n + d) else none) 0

/-- A number below `bound`: in decimal, or behind `0x`, `0o` or `0b` in another base, after at
most one plus sign. A decimal number does not start with a zero that other digits follow. -/
def countText? (bound : Nat) (text : String) : Option Nat := do
  let cs := match text.toList with
    | '+' :: cs => cs
    | cs => cs
  let n ← match cs with
    | '0' :: 'x' :: digits => digitsValue? 16 digits
    | '0' :: 'o' :: digits => digitsValue? 8 digits
    | '0' :: 'b' :: digits => digitsValue? 2 digits
    | '0' :: _ :: _ => none
    | digits => digitsValue? 10 digits
  if n < bound then some n else none

/-- A number below `bound`. -/
def readCount? (bound : Nat) (n : Node) : Option Nat := do
  countText? bound (← typedText? "int" n)

/-- A list of texts; a value that is left out is the empty list. -/
def readTexts? : Node → Option (List String)
  | .sequence items => items.mapM readText?
  | .scalar text style _ => if style == .plain && text.isEmpty then some [] else none
  | .mapping _ => none

/-- A name of one of several things; the name may also be the tag of no value. -/
def readName? (ofName? : String → Option α) : Node → Option α
  | .scalar text style tag =>
    match tag.map String.toList with
    | some ('!' :: name) => if style == .plain && isNull text then ofName? (String.ofList name) else none
    | _ => ofName? text
  | _ => none

/-! ### Mappings -/

/-- The entries of a mapping by name; a value that is left out has none. -/
def entries? : Node → Option (List (String × Node))
  | .mapping entries => entries.mapM fun (k, v) => (·, v) <$> readText? k
  | .scalar text style _ => if style == .plain && text.isEmpty then some [] else none
  | .sequence _ => none

/-- The value of a name: its default where it is not there, and none where it stands twice or is
of the wrong type. -/
def field (entries : List (String × Node)) (name : String) (read : Node → Option α) (otherwise : α) :
    Option α :=
  match entries.filter fun e => e.1 == name with
  | [] => some otherwise
  | [(_, n)] => read n
  | _ => none

/-! ### Reading settings -/

/-- The bound of 64-bit numbers. -/
def bound64 : Nat := Nat.pow 2 64

/-- The policy of a gate. -/
def GateSettings.ofNode? (n : Node) : Option GateSettings := do
  let es ← entries? n
  let otherwise := GateSettings.default
  return {
    dialect := ← field es "dialect" (readName? Dialect.ofName?) otherwise.dialect
    maxRows := ← field es "max_rows" (readCount? bound64) otherwise.maxRows
    limitPolicy := ← field es "limit_policy" (readName? LimitPolicy.ofName?) otherwise.limitPolicy
    allowTrailingSemicolon :=
      ← field es "allow_trailing_semicolon" readFlag? otherwise.allowTrailingSemicolon
    extraKeywords := ← field es "extra_forbidden_keywords" readTexts? otherwise.extraKeywords
    defaultSchema := ← field es "default_schema" readOptionalText? otherwise.defaultSchema }

/-- Where the database is. -/
def ConnectionSettings.ofNode? (n : Node) : Option ConnectionSettings := do
  let es ← entries? n
  let otherwise := ConnectionSettings.default
  return {
    host := ← field es "host" readText? otherwise.host
    port := ← field es "port" (readCount? (Nat.pow 2 16)) otherwise.port
    database := ← field es "database" readText? otherwise.database
    username := ← field es "username" readText? otherwise.username
    password := ← field es "password" readOptionalText? otherwise.password
    credentialsVariable :=
      ← field es "credentials_env" readOptionalText? otherwise.credentialsVariable }

/-- How long an allow-list is kept. -/
def CacheSettings.ofNode? (n : Node) : Option CacheSettings := do
  let es ← entries? n
  return { ttlSeconds := ← field es "ttl_seconds" (readCount? bound64) CacheSettings.default.ttlSeconds }

/-- The bounds on running a statement. -/
def ExecutionSettings.ofNode? (n : Node) : Option ExecutionSettings := do
  let es ← entries? n
  let otherwise := ExecutionSettings.default
  return {
    timeoutMs := ← field es "statement_timeout_ms" (readCount? bound64) otherwise.timeoutMs
    maxConnections := ← field es "max_connections" (readCount? (Nat.pow 2 32)) otherwise.maxConnections
    readOnly := ← field es "read_only" readFlag? otherwise.readOnly }

/-- All settings. -/
def Settings.ofNode? (n : Node) : Option Settings := do
  let es ← entries? n
  let otherwise := Settings.default
  return {
    project := ← field es "project" readOptionalText? otherwise.project
    gate := ← field es "guard" GateSettings.ofNode? otherwise.gate
    connection := ← field es "upstream" ConnectionSettings.ofNode? otherwise.connection
    cache := ← field es "schema_cache" CacheSettings.ofNode? otherwise.cache
    execution := ← field es "execution" ExecutionSettings.ofNode? otherwise.execution }

/-- The settings that a text spells, before they are checked. -/
def Settings.parse? (text : String) : Option Settings :=
  if (Text.trim text.toList).isEmpty then some .default
  else match Yaml.read? text.toList with
    | some (.node n) => Settings.ofNode? n
    | some .empty => some .default
    | none => none

/-- The settings that a text spells, if they pass the check. -/
def Settings.read (text : String) : Except SettingsError Settings :=
  match Settings.parse? text with
  | some s => do
    s.check
    return s
  | none => .error .malformed

/-! ### Writing settings -/

/-- A number. -/
def countNode (n : Nat) : Node := .plain (toString n)

/-- A truth value. -/
def flagNode (b : Bool) : Node := .plain (if b then "true" else "false")

/-- A text, or no value. -/
def optionalNode : Option String → Node
  | some s => .quoted s
  | none => .plain "null"

/-- A mapping with these names. -/
def mappingNode (entries : List (String × Node)) : Node :=
  .mapping (entries.map fun (k, v) => (.quoted k, v))

/-- An entry for a text, if it is there. -/
def optionalEntry (name : String) (s : Option String) : List (String × Node) :=
  (s.map fun s => (name, Node.quoted s)).toList

/-- The policy of a gate. -/
def GateSettings.toNode (g : GateSettings) : Node := mappingNode <|
  [("dialect", .quoted g.dialect.name), ("max_rows", countNode g.maxRows),
    ("limit_policy", .quoted g.limitPolicy.name),
    ("allow_trailing_semicolon", flagNode g.allowTrailingSemicolon),
    ("extra_forbidden_keywords", .sequence (g.extraKeywords.map .quoted))] ++
    optionalEntry "default_schema" g.defaultSchema

/-- Where the database is. -/
def ConnectionSettings.toNode (c : ConnectionSettings) : Node := mappingNode <|
  [("host", .quoted c.host), ("port", countNode c.port), ("database", .quoted c.database),
    ("username", .quoted c.username)] ++
    optionalEntry "password" c.password ++ optionalEntry "credentials_env" c.credentialsVariable

/-- How long an allow-list is kept. -/
def CacheSettings.toNode (c : CacheSettings) : Node :=
  mappingNode [("ttl_seconds", countNode c.ttlSeconds)]

/-- The bounds on running a statement. -/
def ExecutionSettings.toNode (e : ExecutionSettings) : Node :=
  mappingNode [("statement_timeout_ms", countNode e.timeoutMs),
    ("max_connections", countNode e.maxConnections), ("read_only", flagNode e.readOnly)]

/-- All settings. -/
def Settings.toNode (s : Settings) : Node :=
  mappingNode [("project", optionalNode s.project), ("guard", s.gate.toNode),
    ("upstream", s.connection.toNode), ("schema_cache", s.cache.toNode),
    ("execution", s.execution.toNode)]

/-- The settings as a document. -/
def Settings.text (s : Settings) : String := String.ofList s.toNode.text

end QueryGate
