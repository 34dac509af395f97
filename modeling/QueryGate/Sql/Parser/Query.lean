import QueryGate.Sql.Parser.Source

namespace QueryGate.Sql.Parser

/-!
# Queries

A query is its common table expressions, a body, and the clauses after the body. What a `SELECT`
reads is listed clause by clause: `DISTINCT ON`, `TOP`, the projection, the sources, and then the
clauses after them in the order of the text.
-/

/-! ### Projection -/

/-- `ALL` or `DISTINCT`, and the expressions of `DISTINCT ON`. -/
def distinctClause : Parser (List Query) := do
  let all ← keyword "ALL"
  if ← keyword "DISTINCT" then
    ensure !all
    if ← keyword "ON" then parenthesized do
      if ← atSymbol ")" then return []
      else commaLists exprQueries
    else return []
  else return []

/-- A `TOP` clause, if there is one. -/
def topClause : Parser (List Query) := do
  if ← keyword "TOP" then
    let qs ←
      if ← atSymbol "(" then parenthesized exprQueries
      else
        uint
        pure []
    discard (keyword "PERCENT")
    discard (keywords ["WITH", "TIES"])
    return qs
  else return []

/-- Whether an identifier is the bare word `from`. -/
def isFromWord (i : Ident) : Bool := i.quote.isNone && Text.lower i.text == "from"

/-- One item of a projection. -/
def selectItem : Parser (List Query) := do
  let t ← wildcardTerm
  match t.shape with
  | .wildcard => return t.queries
  | .identifier i =>
    ensure !(isFromWord i)
    discard (aliasUnless reservedForColumn)
    return t.queries
  | _ =>
    discard (aliasUnless reservedForColumn)
    return t.queries

/-- The items of a projection; PostgreSQL has an empty one. -/
def projection : Parser (List Query) := do
  if ← both (isDialect .postgresql) (atKeyword "FROM") then return []
  else commaLists selectItem

/-- The target of `SELECT … INTO`, if there is one. -/
def intoClause : Parser (Option Name) := do
  if ← keyword "INTO" then
    discard (keywordOf? ["TEMP", "TEMPORARY"])
    discard (keyword "UNLOGGED")
    discard (keyword "TABLE")
    return some (← name)
  else return none

/-! ### Clauses of a selection -/

/-- The lateral views after the sources. -/
def lateralViews : Nat → Parser (List Query)
  | 0 => misfit
  | fuel + 1 => do
    if ← keywords ["LATERAL", "VIEW"] then
      discard (keyword "OUTER")
      let qs ← exprQueries
      discard name
      discard (commaList (aliasUnless ["WHERE", "GROUP", "CLUSTER", "HAVING", "LATERAL"]))
      return qs ++ (← lateralViews fuel)
    else return []

/-- Expressions in parentheses, or none. -/
def tuple : Parser (List Query) := parenthesized do
  if ← atSymbol ")" then return []
  else commaLists exprQueries

/-- A tuple, or an expression in the place of one. -/
def tupleOrExpr : Parser (List Query) := do
  if ← atSymbol "(" then tuple else exprQueries

/-- An item of `GROUP BY`; grouping sets are PostgreSQL's alone. -/
def groupItem : Parser (List Query) := do
  if ← isDialect .postgresql then
    if ← keywords ["GROUPING", "SETS"] then parenthesized (commaLists tuple)
    else if (← keywordOf? ["CUBE", "ROLLUP"]).isSome then parenthesized (commaLists tupleOrExpr)
    else match ← get with
      | ⟨.symbol "(", _, _⟩ :: ⟨.symbol ")", _, _⟩ :: rest =>
        set rest
        return []
      | _ => exprQueries
  else exprQueries

/-- What follows `GROUP BY`. -/
def groupItems : Parser (List Query) := do
  let items ← if ← keyword "ALL" then pure [] else commaLists groupItem
  let sets ←
    if ← keywords ["GROUPING", "SETS"] then parenthesized (commaLists tupleOrExpr) else pure []
  return items ++ sets

/-- A named window. -/
def namedWindow : Parser (List Query) := do
  discard ident
  expectKeyword "AS"
  expectSymbol "("
  windowSpec operand

/-- `WINDOW` and `QUALIFY` in either order: the windows come first in what is read. -/
def windowsAndQualify : Parser (List Query) := do
  let windows := clause "WINDOW" (commaLists namedWindow)
  let qualify := clause "QUALIFY" exprQueries
  if ← atKeyword "QUALIFY" then
    let q ← qualify
    return (← windows) ++ q
  else
    let w ← windows
    return w ++ (← qualify)

/-- What follows `SELECT`. -/
def selectBody : Parser Body := do
  let distinct ← distinctClause
  let top ← topClause
  let items ← projection
  let into ← intoClause
  let from_ ← clause "FROM" sources
  let views ← withFuel lateralViews
  let condition ← clause "WHERE" exprQueries
  let groups ← clauseBy "GROUP" groupItems
  let cluster ← clauseBy "CLUSTER" (commaLists exprQueries)
  let distribute ← clauseBy "DISTRIBUTE" (commaLists exprQueries)
  let sort ← clauseBy "SORT" (commaLists orderItem)
  let having ← clause "HAVING" exprQueries
  let windows ← windowsAndQualify
  return .select into (asReads (distinct ++ top ++ items) ++ from_ ++
    asReads (views ++ condition ++ groups ++ cluster ++ distribute ++ sort ++ having ++ windows))

/-! ### Bodies -/

/-- A row of values; MySQL has an empty one. -/
def valuesRow : Parser (List Query) := do
  discard (keyword "ROW")
  parenthesized do
    if ← both (isDialect .mysql) (atSymbol ")") then return []
    else commaLists exprQueries

/-- What follows `TABLE` in the place of a body: three tokens are taken, whether they belong to
the name or not. -/
def tableBody : Parser Body := do
  let first ← nextToken
  let second ← nextToken
  let third ← nextToken
  match first, second, third with
  | some (.word schema _), some (.symbol "."), some (.word table _) =>
    return .table (some schema) table
  | _, some (.symbol "."), _ => misfit
  | some (.word table _), _, _ => return .table none table
  | _, _, _ => misfit

/-- A body that is no set operation. -/
def simpleBody : Parser Body := do
  if ← keyword "SELECT" then selectBody
  else if ← symbol "(" then
    let q ← query
    expectSymbol ")"
    return .nested q
  else if (← keywordOf? ["VALUES", "VALUE"]).isSome then .values <$> commaLists valuesRow
  else if ← keyword "TABLE" then tableBody
  else misfit

/-- How a set operation treats duplicates and columns. -/
def setQuantifier : Parser Unit := do
  if ← keyword "ALL" then discard (keywords ["BY", "NAME"])
  else
    discard (keyword "DISTINCT")
    discard (keywords ["BY", "NAME"])

/-- Set operations of one rank, from left to right. -/
def combinations (operators : List String) (operand : Parser Body) : Nat → Body → Parser Body
  | 0, _ => misfit
  | fuel + 1, left => do
    if (← keywordOf? operators).isSome then
      setQuantifier
      let right ← operand
      combinations operators operand fuel (.combined left right)
    else return left

/-- Bodies with `INTERSECT` between them. -/
def intersections : Parser Body := do
  let first ← simpleBody
  withFuel fun fuel => combinations ["INTERSECT"] simpleBody fuel first

/-- A body: `INTERSECT` binds tighter than the other set operations. -/
def queryBody : Parser Body := do
  let first ← intersections
  withFuel fun fuel => combinations ["UNION", "EXCEPT", "MINUS"] intersections fuel first

/-! ### Clauses after the body -/

/-- What follows `OFFSET`. -/
def offsetValue : Parser (List Query) := do
  let qs ← exprQueries
  discard (keywordOf? ["ROW", "ROWS"])
  return qs

/-- `LIMIT` and `OFFSET` in either order. A count comes before the offset behind it. -/
def limitClause : Parser (List Query) := do
  let offsetFirst ← if ← keyword "OFFSET" then some <$> offsetValue else pure none
  if ← keyword "LIMIT" then
    let all ← keyword "ALL"
    let count ← if all then pure [] else exprQueries
    let commaFits := (← dialect).limitComma && offsetFirst.isNone && !all
    if ← both (return commaFits) (symbol ",") then
      return count ++ (← exprQueries)
    else match offsetFirst with
      | some offset => return count ++ offset
      | none => return count ++ (← clause "OFFSET" offsetValue)
  else return offsetFirst.getD []

/-- What follows `FETCH`. -/
def fetchClause : Parser Unit := do
  discard (keywordOf? ["FIRST", "NEXT"])
  unless (← keywordOf? ["ROW", "ROWS"]).isSome do
    value
    discard (keyword "PERCENT")
    discard (keywordOf? ["ROW", "ROWS"])
  unless ← keyword "ONLY" do discard (keywords ["WITH", "TIES"])

/-- A name in quotes and parentheses, if a parenthesis comes next. -/
def optionalRowName : Parser Unit := do
  if ← symbol "(" then
    quotedValue
    expectSymbol ")"

/-- The options of a document that rows are put into. -/
def documentOptions : Nat → Parser Unit
  | 0 => misfit
  | fuel + 1 => do
    if ← symbol "," then
      match ← keywordOf ["ELEMENTS", "BINARY", "ROOT", "TYPE", "INCLUDE_NULL_VALUES",
          "WITHOUT_ARRAY_WRAPPER"] with
      | "BINARY" => expectKeyword "BASE64"
      | "ROOT" => parenthesized quotedValue
      | _ => pure ()
      documentOptions fuel

/-- What follows `FOR` where the rows are put into one document; `false` if nothing fits. -/
def documentClause : Parser Bool := do
  if ← keyword "XML" then
    if (← keywordOf ["RAW", "AUTO", "EXPLICIT", "PATH"]) ∈ ["RAW", "PATH"] then optionalRowName
    withFuel documentOptions
    return true
  else if ← keyword "JSON" then
    discard (keywordOf ["AUTO", "PATH"])
    withFuel documentOptions
    return true
  else keyword "BROWSE"

/-- What follows `FOR` where rows are locked. -/
def lockClause : Parser Lock := do
  let lock := if (← keywordOf ["UPDATE", "SHARE"]) == "UPDATE" then .forUpdate else .forShare
  if ← keyword "OF" then discard name
  unless ← keyword "NOWAIT" do discard (keywords ["SKIP", "LOCKED"])
  return lock

/-- The `FOR` clauses at the end of a query, with the locks among them. -/
def forClauses : Nat → Parser (List Lock)
  | 0 => misfit
  | fuel + 1 => do
    if ← keyword "FOR" then
      if ← documentClause then return []
      else
        let lock ← lockClause
        return lock :: (← forClauses fuel)
    else return []

/-! ### Queries -/

/-- The query of a common table expression, in parentheses. -/
def cteQuery : Parser Query := do
  if ← isDialect .postgresql then
    unless ← keyword "MATERIALIZED" do discard (keywords ["NOT", "MATERIALIZED"])
  parenthesized query

/-- A common table expression. -/
def cte : Parser Cte := do
  let i ← ident
  unless ← keyword "AS" do
    optionalColumns
    expectKeyword "AS"
  let q ← cteQuery
  if ← keyword "FROM" then discard ident
  return .mk i q

/-- What follows `WITH`. -/
def withClause : Parser (Bool × List Cte) := do
  let recursive ← keyword "RECURSIVE"
  return (recursive, ← commaList cte)

end QueryGate.Sql.Parser
