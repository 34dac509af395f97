import QueryGate.Sql.Parser.Basic
import QueryGate.Sql.Parser.Reserved
import QueryGate.Text.Count

namespace QueryGate.Sql.Parser

/-!
# Data types

Types are read to find where they end. The kinds that matter are the ones that decide what a type
name before a literal means.
-/

/-- What kind of type was read. -/
inductive TypeKind where
  | builtin
  | binary
  | interval
  | custom
deriving DecidableEq, Repr

/-- An unsigned integer. -/
def uint : Parser Unit := do
  match ← nextToken with
  | some (.number text _) => ensure (Text.readCount? text).isSome
  | _ => misfit

/-- An unsigned integer in parentheses, if a parenthesis comes next. -/
def optionalPrecision : Parser Unit := do
  if ← symbol "(" then
    uint
    expectSymbol ")"

/-- Precision and scale in parentheses, if a parenthesis comes next. -/
def optionalScale : Parser Unit := do
  if ← symbol "(" then
    uint
    if ← symbol "," then
      unless ← symbol "-" do discard (symbol "+")
      uint
    expectSymbol ")"

/-- A length in parentheses, if a parenthesis comes next. -/
def optionalLength : Parser Unit := do
  if ← symbol "(" then
    unless ← keyword "MAX" do
      uint
      discard (keywordOf? ["CHARACTERS", "OCTETS"])
    expectSymbol ")"

/-- `WITH TIME ZONE` or `WITHOUT TIME ZONE`, if one of the two prepositions comes next. -/
def optionalZone : Parser Unit := do
  if (← keywordOf? ["WITH", "WITHOUT"]).isSome then expectKeywords ["TIME", "ZONE"]

/-- The fields of an interval type. -/
def optionalIntervalFields : Parser Unit := do
  match ← keywordOf? ["YEAR", "DAY", "HOUR", "MINUTE", "MONTH", "SECOND"] with
  | some "YEAR" => if ← keyword "TO" then expectKeyword "MONTH"
  | some "DAY" => if ← keyword "TO" then discard (keywordOf ["HOUR", "MINUTE", "SECOND"])
  | some "HOUR" => if ← keyword "TO" then discard (keywordOf ["MINUTE", "SECOND"])
  | some "MINUTE" => if ← keyword "TO" then expectKeyword "SECOND"
  | _ => pure ()

/-- A string literal in single quotes. -/
def quotedValue : Parser Unit := do
  match ← nextToken with
  | some (.literal .single _) => pure ()
  | _ => misfit

/-- A member of an enumeration. -/
def enumMember : Parser Unit := do
  quotedValue
  if ← symbol "=" then
    discard (symbol "-")
    uint

/-- The arguments of a type without a meaning of its own: words, numbers and strings up to the
closing parenthesis. -/
def modifiers : Nat → Parser Unit
  | 0 => misfit
  | fuel + 1 => do
    match ← nextToken with
    | some (.symbol ")") => pure ()
    | some (.symbol ",") => modifiers fuel
    | some (.word _ _) => modifiers fuel
    | some (.number _ _) => modifiers fuel
    | some (.literal .single _) => modifiers fuel
    | _ => misfit

/-- Types that a word names by itself. -/
def plainTypes : List String :=
  ["BOOLEAN", "BOOL", "FLOAT4", "FLOAT32", "FLOAT64", "FLOAT8", "INT16", "INT32", "INT64",
    "INT128", "INT256", "UINT8", "UINT16", "UINT32", "UINT64", "UINT128", "UINT256", "HUGEINT",
    "UHUGEINT", "UBIGINT", "USMALLINT", "UTINYINT", "UUID", "DATE", "DATE32", "JSON", "JSONB",
    "REGCLASS", "TEXT", "TINYTEXT", "MEDIUMTEXT", "LONGTEXT", "BYTEA", "TINYBLOB", "MEDIUMBLOB",
    "LONGBLOB", "TRIGGER"]

/-- Types with an optional precision. -/
def precisionTypes : List String :=
  ["CLOB", "BLOB", "BYTES", "VARBIT", "DATETIME", "TIMESTAMPTZ", "TIMESTAMP_NTZ", "TIMETZ",
    "STRING"]

/-- Integer types, with an optional width and sign. -/
def integerTypes : List String :=
  ["TINYINT", "INT2", "SMALLINT", "MEDIUMINT", "INT", "INT4", "INT8", "INTEGER", "BIGINT"]

/-- Exact numbers, with an optional precision and scale. -/
def decimalTypes : List String := ["NUMERIC", "DECIMAL", "DEC", "BIGNUMERIC", "BIGDECIMAL"]

/-- The rest of a character type that starts with `CHAR` or `CHARACTER`. -/
def characterType : Parser Unit := do
  if ← keyword "VARYING" then optionalLength
  else if ← keywords ["LARGE", "OBJECT"] then optionalPrecision
  else optionalLength

/-- The square brackets behind an array type. -/
def arrayBrackets : Nat → Parser Unit
  | 0 => pure ()
  | fuel + 1 => do
    if ← symbol "[" then
      discard (attempt uint)
      expectSymbol "]"
      arrayBrackets fuel

/-- The rest of a type that starts with this keyword; `element` reads the type of an element. -/
def typeBehind (element : Parser TypeKind) (k : String) : Parser TypeKind := do
  let d ← dialect
  if plainTypes.contains k then return .builtin
  else if precisionTypes.contains k then
    optionalPrecision
    return .builtin
  else if integerTypes.contains k then
    optionalPrecision
    unless ← keyword "UNSIGNED" do
      if d = .mysql then discard (keyword "SIGNED")
    return .builtin
  else if decimalTypes.contains k then
    optionalScale
    if k == "DECIMAL" || k == "DEC" then discard (keyword "UNSIGNED")
    return .builtin
  else match k with
    | "FLOAT" =>
      optionalScale
      discard (keyword "UNSIGNED")
      return .builtin
    | "REAL" =>
      discard (keyword "UNSIGNED")
      return .builtin
    | "DOUBLE" =>
      unless ← keyword "PRECISION" do optionalScale
      discard (keyword "UNSIGNED")
      return .builtin
    | "VARCHAR" | "NVARCHAR" | "VARBINARY" =>
      optionalLength
      return .builtin
    | "CHARACTER" | "CHAR" =>
      characterType
      return .builtin
    | "BINARY" =>
      optionalPrecision
      return .binary
    | "BIT" =>
      discard (keyword "VARYING")
      optionalPrecision
      return .builtin
    | "TIMESTAMP" | "TIME" =>
      optionalPrecision
      optionalZone
      return .builtin
    | "INTERVAL" =>
      if d = .postgresql then
        optionalIntervalFields
        optionalPrecision
      return .interval
    | "FIXEDSTRING" =>
      parenthesized uint
      return .builtin
    | "ENUM" | "ENUM8" | "ENUM16" =>
      discard (parenthesized (commaList enumMember))
      return .builtin
    | "SET" =>
      discard (parenthesized (commaList quotedValue))
      return .builtin
    | "ARRAY" =>
      expectSymbol "<"
      discard element
      expectSymbol ">"
      return .builtin
    | "SETOF" => element
    | "TABLE" => return .builtin
    | "SIGNED" | "UNSIGNED" =>
      discard (keyword "INTEGER")
      return .builtin
    | _ => misfit

/-- The keywords that start a type of their own. -/
def typeWords : List String :=
  plainTypes ++ precisionTypes ++ integerTypes ++ decimalTypes ++
    ["FLOAT", "REAL", "DOUBLE", "VARCHAR", "NVARCHAR", "VARBINARY", "CHARACTER", "CHAR", "BINARY",
      "BIT", "TIMESTAMP", "TIME", "INTERVAL", "FIXEDSTRING", "ENUM", "ENUM8", "ENUM16", "SET",
      "ARRAY", "SETOF", "TABLE", "SIGNED", "UNSIGNED"]

/-- Whether a keyword starts a type of its own. -/
def isTypeWord (d : Dialect) (k : String) : Bool :=
  typeWords.contains k || (d == .postgresql && (k == "TSVECTOR" || k == "TSQUERY"))

/-- A type by a name without a meaning of its own, with its arguments. -/
def namedType : Parser TypeKind := do
  discard name
  if ← symbol "(" then withFuel modifiers
  return .custom

/-- A type up to its square brackets. -/
def bareType (element : Parser TypeKind) : Parser TypeKind := do
  let d ← dialect
  match ← peek with
  | some ⟨.word _ _, k, _⟩ =>
    if isTypeWord d k then do
      skip
      if k == "TSVECTOR" || k == "TSQUERY" then return .builtin
      else typeBehind element k
    else if ← keywords ["ANY", "TYPE"] then return .builtin
    else namedType
  | _ => misfit

/-- A type, with at most as many levels as there is fuel. -/
def dataTypeWithin : Nat → Parser TypeKind
  | 0 => misfit
  | fuel + 1 => do
    let kind ← bareType (dataTypeWithin fuel)
    if ← both (isDialect .postgresql) (atSymbol "[") then
      withFuel arrayBrackets
      return .builtin
    else return kind

/-- A type. -/
def dataType : Parser TypeKind := withFuel dataTypeWithin

end QueryGate.Sql.Parser
