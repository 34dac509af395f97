import QueryGate.Sql.Parser.Term

namespace QueryGate.Sql.Parser

/-!
# Sources

The items of a `FROM` clause. Read are table names and table functions in the place of a table;
functions behind `LATERAL`, `TABLE (…)`, `UNNEST`, `JSON_TABLE` and `XMLTABLE` compute rows from
their arguments alone. A table comes before the arguments it is called with, and a joined item
before the condition of the join.
-/

/-- An item of a `FROM` clause: what it reads, and whether it is a join in parentheses. -/
structure Source where
  isJoin : Bool
  reads : List Read

/-- An item that is no join in parentheses. -/
def Source.of (reads : List Read) : Source := ⟨false, reads⟩

/-- Queries, as things that are read. -/
def asReads (queries : List Query) : List Read := queries.map .query

/-- The queries in an expression, as things that are read. -/
def exprReads : Parser (List Read) := asReads <$> exprQueries

/-! ### Aliases -/

/-- A column of an alias, with its type where one is given. -/
def aliasColumn : Parser Unit := do
  discard ident
  discard (attempt dataType)

/-- Columns in parentheses, if a parenthesis comes next. -/
def optionalColumns : Parser Unit := do
  if ← symbol "(" then
    discard (commaList aliasColumn)
    expectSymbol ")"

/-- The alias of a table with its columns, if there is one. -/
def tableAlias : Parser Unit := do
  if (← aliasUnless (reservedForTable (← dialect))).isSome then optionalColumns

/-! ### Pivots -/

/-- A value with an alias that needs `AS`. -/
def namedValue : Parser (List Query) := do
  let qs ← exprQueries
  if ← keyword "AS" then discard ident
  return qs

/-- An aggregate of a `PIVOT`: a call and its alias. -/
def pivotAggregate : Parser (List Query) := do
  match ← nextToken with
  | some (.word _ _) =>
    let t ← call operand
    discard (aliasUnless ["FOR"])
    return t.queries
  | _ => misfit

/-- The columns whose values a `PIVOT` spreads. -/
def pivotColumns : Parser (List Query) := do
  let column := do return (← termAbove (Tier.between.power (← dialect))).queries
  if ← atSymbol "(" then parenthesized (commaLists column) else column

/-- What follows `PIVOT`. -/
def pivotClause : Parser (List Query) := do
  let qs ← parenthesized do
    let aggregates ← commaLists pivotAggregate
    expectKeyword "FOR"
    let columns ← pivotColumns
    expectKeyword "IN"
    let values ← parenthesized do
      if ← keyword "ANY" then clauseBy "ORDER" (commaLists orderItem)
      else if ← atAny ["SELECT", "WITH"] then return [← query]
      else commaLists namedValue
    let default ←
      if ← keywords ["DEFAULT", "ON", "NULL"] then parenthesized exprQueries else pure []
    return aggregates ++ columns ++ values ++ default
  tableAlias
  return qs

/-- What follows `UNPIVOT`. -/
def unpivotClause : Parser (List Query) := do
  unless ← keywords ["INCLUDE", "NULLS"] do discard (keywords ["EXCLUDE", "NULLS"])
  let qs ← parenthesized do
    let value ← exprQueries
    expectKeyword "FOR"
    discard ident
    expectKeyword "IN"
    return value ++ (← parenthesized (commaLists namedValue))
  tableAlias
  return qs

/-- The pivots after a table. -/
def pivots : Nat → Parser (List Read)
  | 0 => misfit
  | fuel + 1 => do
    match ← keywordOf? ["PIVOT", "UNPIVOT"] with
    | some k =>
      let qs ← if k == "PIVOT" then pivotClause else unpivotClause
      return asReads qs ++ (← pivots fuel)
    | none => return []

/-! ### Rows from a document -/

/-- What a column holds where its path finds nothing, or an error. -/
def jsonFallbacks : Nat → Parser Unit
  | 0 => misfit
  | fuel + 1 => do
    match ← keywordOf? ["NULL", "ERROR", "DEFAULT"] with
    | some k =>
      if k == "DEFAULT" then value
      expectKeyword "ON"
      discard (keywordOf ["EMPTY", "ERROR"])
      jsonFallbacks fuel
    | none => pure ()

/-- A column of `JSON_TABLE`. -/
def jsonColumn : Nat → Parser Unit
  | 0 => misfit
  | fuel + 1 => do
    if ← keyword "NESTED" then
      discard (keyword "PATH")
      value
      expectKeyword "COLUMNS"
      discard (parenthesized (commaList (jsonColumn fuel)))
    else
      discard ident
      unless ← keywords ["FOR", "ORDINALITY"] do
        discard dataType
        discard (keyword "EXISTS")
        expectKeyword "PATH"
        value
        withFuel jsonFallbacks

/-- What follows `JSON_TABLE (`. -/
def jsonTable : Parser (List Read) := do
  let document ← exprReads
  expectSymbol ","
  value
  expectKeyword "COLUMNS"
  discard (parenthesized (commaList (withFuel jsonColumn)))
  expectSymbol ")"
  return document

/-- The options of a column of `XMLTABLE`. -/
def xmlOptions : Nat → Parser (List Query)
  | 0 => misfit
  | fuel + 1 => do
    if (← keywordOf? ["PATH", "DEFAULT"]).isSome then
      let qs ← exprQueries
      return qs ++ (← xmlOptions fuel)
    else if ← keywords ["NOT", "NULL"] then xmlOptions fuel
    else if ← keyword "NULL" then xmlOptions fuel
    else return []

/-- A column of `XMLTABLE`. -/
def xmlColumn : Parser (List Query) := do
  discard ident
  if ← keywords ["FOR", "ORDINALITY"] then return []
  else
    discard dataType
    withFuel xmlOptions

/-- A document that `XMLTABLE` reads. -/
def xmlDocument : Parser (List Query) := do
  discard (keywords ["BY", "VALUE"])
  let qs ← exprQueries
  if ← keyword "AS" then discard ident
  discard (keywords ["BY", "VALUE"])
  return qs

/-- What follows `XMLTABLE (`. -/
def xmlTable : Parser (List Read) := do
  let namespaces ←
    if ← keyword "XMLNAMESPACES" then
      let qs ← parenthesized (commaLists do
        let qs ← exprQueries
        expectKeyword "AS"
        discard ident
        return qs)
      expectSymbol ","
      pure qs
    else pure []
  let row ← exprQueries
  let documents ← clause "PASSING" (commaLists xmlDocument)
  expectKeyword "COLUMNS"
  let columns ← commaLists xmlColumn
  expectSymbol ")"
  return asReads (namespaces ++ row ++ documents ++ columns)

/-! ### Tables -/

/-- The arguments of a table function, behind the opening parenthesis. -/
def tableArguments : Parser (List Read) := do
  if ← symbol ")" then return []
  else
    let qs ← commaLists argument
    expectSymbol ")"
    return asReads qs

/-- An index hint. -/
def indexHint : Parser Unit := do
  discard (keywordOf ["INDEX", "KEY"])
  if ← keyword "FOR" then
    unless ← keyword "JOIN" do
      unless ← keywords ["ORDER", "BY"] do expectKeywords ["GROUP", "BY"]
  parenthesized do
    unless ← atSymbol ")" do discard (commaList ident)

/-- The index hints after a table. -/
def indexHints : Nat → Parser Unit
  | 0 => misfit
  | fuel + 1 => do
    if (← keywordOf? ["USE", "IGNORE", "FORCE"]).isSome then
      indexHint
      indexHints fuel

/-- Hints in parentheses behind `WITH`; a `WITH` before anything else is left in place. -/
def tableHints : Parser (List Read) := do
  let start ← get
  if ← keyword "WITH" then
    if ← symbol "(" then
      let qs ← commaLists exprQueries
      expectSymbol ")"
      return asReads qs
    else
      set start
      return []
  else return []

/-- A number. -/
def numberLiteral : Parser Unit := do
  match ← nextToken with
  | some (.number _ _) => pure ()
  | _ => misfit

/-- How large a sample is: a bucket, a count or a share. -/
def sampleSize (inParens : Bool) : Parser (List Query) := do
  if ← both (return inParens) (keyword "BUCKET") then
    numberLiteral
    expectKeywords ["OUT", "OF"]
    numberLiteral
    clause "ON" exprQueries
  else
    let qs ←
      match ← attempt exprQueries with
      | some qs => pure qs
      | none =>
        match ← nextToken with
        | some (.word _ _) => pure []
        | _ => misfit
    discard (keywordOf? ["ROWS", "PERCENT"])
    return qs

/-- A sample of the rows of a table, if one is asked for. -/
def sampleClause : Parser (List Read) := do
  if (← keywordOf? ["TABLESAMPLE", "SAMPLE"]).isSome then
    discard (keywordOf? ["BERNOULLI", "ROW", "SYSTEM", "BLOCK"])
    let inParens ← symbol "("
    let size ← sampleSize inParens
    if inParens then expectSymbol ")"
    if (← keywordOf? ["REPEATABLE", "SEED"]).isSome then parenthesized numberLiteral
    let offset ← clause "OFFSET" exprQueries
    return asReads (size ++ offset)
  else return []

/-- A table by its name, with all that may follow it. -/
def namedTable : Parser (List Read) := do
  let table ← name
  if ← both (isDialect .mysql) (keyword "PARTITION") then discard identList
  let args ← if ← symbol "(" then tableArguments else pure []
  discard (keywords ["WITH", "ORDINALITY"])
  tableAlias
  if ← isDialect .mysql then discard (attempt (withFuel indexHints))
  let hints ← tableHints
  let sample ← sampleClause
  return .relation table :: args ++ hints ++ sample ++ (← withFuel pivots)

/-- A function behind `LATERAL`: its name is no relation. -/
def lateralFunction : Parser (List Read) := do
  discard name
  expectSymbol "("
  let qs ← argumentList
  tableAlias
  return asReads qs

/-- What follows `UNNEST`. A `WITH` behind it is taken even if nothing fits it. -/
def unnest : Parser (List Read) := do
  let qs ← parenthesized (commaLists exprQueries)
  discard (keywords ["WITH", "ORDINALITY"])
  tableAlias
  if ← both (keyword "WITH") (keyword "OFFSET") then discard (aliasUnless reservedForColumn)
  return asReads qs

/-- A query in parentheses and its alias, behind the opening parenthesis. -/
def derivedTable : Parser (List Read) := do
  let q ← query
  expectSymbol ")"
  tableAlias
  return [.query q]

/-! ### Joins -/

/-- The condition of a join, if there is one. -/
def joinCondition : Parser (List Read) := do
  if ← keyword "ON" then exprReads
  else
    if ← keyword "USING" then discard nameList
    return []

/-- Takes the words of a join between two items; `false` if no join comes next. -/
def joinWords : Parser Bool := do
  match ← keywordOf? ["INNER", "JOIN", "LEFT", "RIGHT", "ANTI", "SEMI", "FULL", "OUTER",
      "STRAIGHT_JOIN"] with
  | some "JOIN" | some "STRAIGHT_JOIN" => return true
  | some "INNER" | some "ANTI" | some "SEMI" =>
    expectKeyword "JOIN"
    return true
  | some "LEFT" | some "RIGHT" =>
    if (← keywordOf ["OUTER", "SEMI", "ANTI", "JOIN"]) != "JOIN" then expectKeyword "JOIN"
    return true
  | some "FULL" =>
    discard (keyword "OUTER")
    expectKeyword "JOIN"
    return true
  | some _ => misfit
  | none => return false

/-- One join, of the items that `item` reads. -/
def join (item : Parser (List Read)) : Parser (Option (List Read)) := do
  discard (keyword "GLOBAL")
  if ← keyword "CROSS" then
    let product := (← keywordOf ["JOIN", "APPLY"]) == "JOIN"
    let reads ← item
    if product && (← isDialect .mysql) then return some (reads ++ (← joinCondition))
    else return some reads
  else if ← keyword "OUTER" then
    expectKeyword "APPLY"
    return some (← item)
  else if ← keyword "ASOF" then
    expectKeyword "JOIN"
    let reads ← item
    expectKeyword "MATCH_CONDITION"
    let closeness ← parenthesized exprReads
    return some (reads ++ closeness ++ (← joinCondition))
  else
    let natural ← keyword "NATURAL"
    if ← joinWords then
      let reads ← item
      if natural then return some reads
      else return some (reads ++ (← joinCondition))
    else
      ensure !natural
      return none

/-- The joins after an item. -/
def joins (item : Parser (List Read)) : Nat → Parser (List (List Read))
  | 0 => misfit
  | fuel + 1 => do
    match ← join item with
    | some reads => return reads :: (← joins item fuel)
    | none => return []

/-- An item and its joins. -/
def joined (item : Parser Source) : Parser (Source × List (List Read)) := do
  let first ← item
  let rest ← withFuel (joins (Source.reads <$> item))
  return (first, rest)

/-- A join in parentheses, behind the opening one. A table alone does not stand there. -/
def nestedJoin (item : Parser Source) : Parser (List Read) := do
  let (first, rest) ← joined item
  ensure (first.isJoin || !rest.isEmpty)
  expectSymbol ")"
  tableAlias
  return first.reads ++ rest.flatten

/-- An item of a `FROM` clause, with at most as many parentheses around it as there is fuel. -/
def itemWithin : Nat → Parser Source
  | 0 => misfit
  | fuel + 1 => do
    if ← keyword "LATERAL" then
      if ← symbol "(" then Source.of <$> derivedTable
      else Source.of <$> lateralFunction
    else if ← keyword "TABLE" then
      let reads ← parenthesized exprReads
      tableAlias
      return .of reads
    else if ← symbol "(" then
      match ← attempt derivedTable with
      | some reads => return .of (reads ++ (← withFuel pivots))
      | none => return ⟨true, ← nestedJoin (itemWithin fuel)⟩
    else if ← both (isDialect .postgresql) (keyword "UNNEST") then Source.of <$> unnest
    else
      match ← get with
      | word :: ⟨.symbol "(", _, _⟩ :: rest =>
        if word.keyword == "JSON_TABLE" then
          set rest
          let reads ← jsonTable
          tableAlias
          return .of reads
        else if word.keyword == "XMLTABLE" then
          set rest
          let reads ← xmlTable
          tableAlias
          return .of reads
        else Source.of <$> namedTable
      | _ => Source.of <$> namedTable

/-- An item of a `FROM` clause and its joins. -/
def source : Parser (List Read) := do
  let (first, rest) ← joined (withFuel itemWithin)
  return first.reads ++ rest.flatten

/-- The items of a `FROM` clause. -/
def sources : Parser (List Read) := commaLists source

end QueryGate.Sql.Parser
