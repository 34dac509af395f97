import QueryGate.Sql.Parser.Query

namespace QueryGate.Sql.Parser

/-!
# Changes

Statements that change rows, as far as they can stand in the place of a query. The changed table
counts as read.
-/

/-- Takes the verb of a change, if one comes next. -/
def changeVerb? : Parser (Option Change) := do
  match ← keywordOf? ["INSERT", "UPDATE", "DELETE", "MERGE"] with
  | some "INSERT" => return some .insert
  | some "UPDATE" => return some .update
  | some "DELETE" => return some .delete
  | some "MERGE" => return some .merge
  | _ => return none

/-- What a change hands back, if it says so. -/
def returningClause : Parser (List Read) :=
  asReads <$> clause "RETURNING" (commaLists selectItem)

/-- What follows `INSERT`. -/
def insertBody : Parser (List Read) := do
  discard (keyword "INTO")
  discard (keyword "TABLE")
  let table ← name
  if (← keyword "AS") then discard ident
  if ← atSymbol "(" then discard (attempt identList)
  let rows ←
    if ← keywords ["DEFAULT", "VALUES"] then pure []
    else pure [.query (← query)]
  return .relation table :: rows ++ (← returningClause)

/-- An assignment of `UPDATE`. -/
def assignment : Parser (List Query) := do
  if ← atSymbol "(" then discard nameList else discard name
  expectSymbol "="
  exprQueries

/-- What follows `UPDATE`. -/
def updateBody : Parser (List Read) := do
  let table ← source
  expectKeyword "SET"
  let values ← commaLists assignment
  let from_ ← clause "FROM" sources
  let condition ← clause "WHERE" exprQueries
  return table ++ asReads values ++ from_ ++ asReads condition ++ (← returningClause)

/-- What follows `DELETE`. -/
def deleteBody : Parser (List Read) := do
  expectKeyword "FROM"
  let tables ← sources
  let using_ ← clause "USING" sources
  let condition ← clause "WHERE" exprQueries
  return tables ++ using_ ++ asReads condition ++ (← returningClause)

/-- What a branch of `MERGE` does with a row. -/
def mergeAction : Parser (List Query) := do
  match ← keywordOf ["INSERT", "UPDATE", "DELETE"] with
  | "INSERT" =>
    if ← atSymbol "(" then discard identList
    if ← keyword "ROW" then return []
    else
      expectKeyword "VALUES"
      commaLists valuesRow
  | "UPDATE" =>
    expectKeyword "SET"
    commaLists assignment
  | _ => return []

/-- The branches of `MERGE`. -/
def mergeBranches : Nat → Parser (List Query)
  | 0 => misfit
  | fuel + 1 => do
    if ← keyword "WHEN" then
      discard (keyword "NOT")
      expectKeyword "MATCHED"
      unless ← keywords ["BY", "SOURCE"] do discard (keywords ["BY", "TARGET"])
      let condition ← clause "AND" exprQueries
      expectKeyword "THEN"
      let action ← mergeAction
      return condition ++ action ++ (← mergeBranches fuel)
    else return []

/-- What follows `MERGE`. -/
def mergeBody : Parser (List Read) := do
  discard (keyword "INTO")
  let item := Source.reads <$> withFuel itemWithin
  let target ← item
  expectKeyword "USING"
  let rows ← item
  expectKeyword "ON"
  let condition ← exprReads
  return target ++ rows ++ condition ++ asReads (← withFuel mergeBranches)

/-- What follows the verb of a change. -/
def changeReads : Change → Parser (List Read)
  | .insert => insertBody
  | .update => updateBody
  | .delete => deleteBody
  | .merge => mergeBody

/-- A query, with at least one level to spend on it. -/
def queryHere : Parser Query := do
  let (recursive, ctes) ← if ← keyword "WITH" then withClause else pure (false, [])
  match ← changeVerb? with
  | some kind => return .mk recursive ctes (.change kind (← changeReads kind)) [] []
  | none =>
    let body ← queryBody
    let order ← clauseBy "ORDER" (commaLists orderItem)
    let limit ← limitClause
    if ← keyword "FETCH" then fetchClause
    let locks ← withFuel forClauses
    return .mk recursive ctes body (order ++ limit) locks

end QueryGate.Sql.Parser
