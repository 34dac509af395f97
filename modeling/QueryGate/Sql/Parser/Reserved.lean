import QueryGate.Dialect

namespace QueryGate.Sql.Parser

/-!
# Reserved words

The words that cannot stand where a name is optional, because a clause may start there.
-/

/-- Words that are no alias of a selected expression unless `AS` precedes them. -/
def reservedForColumn : List String :=
  ["WITH", "EXPLAIN", "ANALYZE", "SELECT", "WHERE", "GROUP", "SORT", "HAVING", "ORDER", "TOP",
    "LATERAL", "VIEW", "LIMIT", "OFFSET", "FETCH", "UNION", "EXCEPT", "EXCLUDE", "INTERSECT",
    "MINUS", "CLUSTER", "DISTRIBUTE", "RETURNING", "VALUES", "FROM", "INTO", "END"]

/-- Words that are no alias of a table unless `AS` precedes them, in every dialect. -/
def reservedForAnyTable : List String :=
  ["WITH", "EXPLAIN", "ANALYZE", "SELECT", "WHERE", "GROUP", "SORT", "HAVING", "ORDER", "PIVOT",
    "UNPIVOT", "TOP", "LATERAL", "VIEW", "LIMIT", "OFFSET", "FETCH", "UNION", "EXCEPT",
    "INTERSECT", "MINUS", "ON", "JOIN", "INNER", "CROSS", "FULL", "LEFT", "RIGHT", "NATURAL",
    "USING", "CLUSTER", "DISTRIBUTE", "GLOBAL", "ANTI", "SEMI", "RETURNING", "OUTPUT", "ASOF",
    "MATCH_CONDITION", "OUTER", "SET", "QUALIFY", "WINDOW", "END", "FOR", "PARTITION",
    "PREWHERE", "SETTINGS", "FORMAT", "START", "CONNECT", "MATCH_RECOGNIZE", "SAMPLE",
    "TABLESAMPLE", "FROM", "OPEN"]

/-- Words that are no alias of a table unless `AS` precedes them. -/
def reservedForTable (d : Dialect) : List String :=
  if d = .mysql then reservedForAnyTable ++ ["USE", "IGNORE", "FORCE", "STRAIGHT_JOIN"]
  else reservedForAnyTable

/-- Words that are no column name: what they introduce has to follow. -/
def reservedForIdent (d : Dialect) : List String :=
  if d = .postgresql then ["EXISTS", "STRUCT", "TRIM"]
  else ["EXISTS", "INTERVAL", "STRUCT", "TRIM"]

/-- Units of time. -/
def timeUnits : List String :=
  ["YEAR", "YEARS", "QUARTER", "MONTH", "MONTHS", "WEEK", "WEEKS", "DAY", "DAYS", "HOUR", "HOURS",
    "MINUTE", "MINUTES", "SECOND", "SECONDS", "CENTURY", "DECADE", "DOW", "DOY", "EPOCH",
    "ISODOW", "ISOYEAR", "ISOWEEK", "JULIAN", "MICROSECOND", "MICROSECONDS", "MILLENIUM",
    "MILLENNIUM", "MILLISECOND", "MILLISECONDS", "NANOSECOND", "NANOSECONDS", "TIMEZONE",
    "TIMEZONE_HOUR", "TIMEZONE_MINUTE"]

/-- Further parts of a time that `EXTRACT` knows. -/
def timeParts : List String :=
  timeUnits ++ ["DAYOFWEEK", "DAYOFYEAR", "DATE", "DATETIME", "TIME", "TIMEZONE_ABBR",
    "TIMEZONE_REGION"]

end QueryGate.Sql.Parser
