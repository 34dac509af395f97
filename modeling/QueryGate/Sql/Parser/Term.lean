import QueryGate.Sql.Parser.DataType
import QueryGate.Sql.Parser.Power

namespace QueryGate.Sql.Parser

/-!
# Expressions

An expression is an operand, its periods and subscripts, and the infix operators after it.
Operands that start with a word are tried as the construct that the word introduces, and read as
a column or a call if that does not fit.

`atom` stands for the parser of operands with less fuel: interval literals are operands that hold
one.
-/

/-! ### Literals -/

/-- Further string literals, where adjacent ones are one. -/
def adjacentLiterals : Nat → Parser Unit
  | 0 => pure ()
  | fuel + 1 => do
    match ← get with
    | ⟨.literal kind _, _, _⟩ :: rest =>
      if kind == .single || kind == .double then
        set rest
        adjacentLiterals fuel
    | _ => pure ()

/-- A literal, a placeholder, or one of the words that are values. -/
def value : Parser Unit := do
  match ← next with
  | none => misfit
  | some l =>
    match l.token with
    | .word _ none => ensure (["TRUE", "FALSE", "NULL"].contains l.keyword)
    | .word _ (some quote) => ensure (quote == '"')
    | .number _ _ | .placeholder _ => pure ()
    | .literal kind _ =>
      if (← dialect).joinsLiterals && (kind == .single || kind == .double) then
        withFuel adjacentLiterals
    | .symbol s =>
      ensure (s == ":" || s == "@")
      match ← next with
      | some ⟨.word _ _, _, true⟩ => pure ()
      | some ⟨.number _ false, _, true⟩ => pure ()
      | _ => misfit
    | _ => misfit

/-- A value as an expression. -/
def valueTerm : Parser Term := do
  value
  return ⟨.value, []⟩

/-- A part of a time, by name. -/
def timePart : Parser String := do
  let d ← dialect
  match ← next with
  | some ⟨.word _ _, k, _⟩ =>
    ensure (d == .postgresql || timeParts.contains k)
    return k
  | some ⟨.literal .single _, _, _⟩ =>
    ensure (d == .postgresql)
    return ""
  | _ => misfit

/-- What follows `INTERVAL`: a value and its units. MySQL takes any expression and insists on a
unit. -/
def intervalTerm (atom : Parser Term) : Parser Term := do
  let d ← dialect
  let t ← if d = .mysql then expr else atom
  if ← atAny timeUnits then
    if (← timePart) == "SECOND" then optionalScale
    else
      optionalPrecision
      if ← keyword "TO" then
        if (← timePart) == "SECOND" then optionalPrecision
  else
    ensure (d != .mysql)
    optionalPrecision
    if ← keyword "TO" then
      if (← timePart) == "SECOND" then optionalPrecision
  return .of t.queries

/-- A literal that a type name introduces. -/
def typedLiteral (atom : Parser Term) : Parser Term := do
  match ← dataType with
  | .interval => intervalTerm atom
  | .custom => misfit
  | .binary =>
    if ← isDialect .mysql then return .of (← exprQueries)
    else
      value
      return .of []
  | .builtin =>
    value
    return .of []

/-! ### Wildcards -/

/-- Names and periods before a star; `false` if there is no star at their end. -/
def starAfterNames : Nat → Parser Bool
  | 0 => misfit
  | fuel + 1 => do
    if ← symbol "." then
      match ← nextToken with
      | some (.word _ _) | some (.literal .single _) | some (.placeholder _) => starAfterNames fuel
      | some (.symbol "*") => return true
      | _ => misfit
    else return false

/-- Takes a star, or a name with a star at its end, if one comes next. -/
def wildcard : Parser Bool := do
  let start ← get
  match ← nextToken with
  | some (.symbol "*") => return true
  | some (.word _ _) | some (.literal .single _) =>
    if ← atSymbol "." then
      if ← withFuel starAfterNames then return true
  | _ => pure ()
  set start
  return false

/-- A wildcard or an expression. -/
def wildcardTerm : Parser Term := do
  if ← wildcard then return ⟨.wildcard, []⟩ else expr

/-! ### Ordering and windows -/

/-- One item of an `ORDER BY`. -/
def orderItem : Parser (List Query) := do
  let qs ← exprQueries
  discard (keywordOf? ["ASC", "DESC"])
  unless ← keywords ["NULLS", "FIRST"] do discard (keywords ["NULLS", "LAST"])
  return qs

/-- A bound of a window frame. -/
def frameBound (atom : Parser Term) : Parser (List Query) := do
  if ← keywords ["CURRENT", "ROW"] then return []
  else
    let qs ←
      if ← keyword "UNBOUNDED" then pure []
      else match ← peekToken with
        | some (.literal .single _) => Term.queries <$> intervalTerm atom
        | _ => exprQueries
    discard (keywordOf ["PRECEDING", "FOLLOWING"])
    return qs

/-- A window in parentheses, behind the opening one. -/
def windowSpec (atom : Parser Term) : Parser (List Query) := do
  match ← peek with
  | some ⟨.word _ _, k, _⟩ =>
    unless ["PARTITION", "ORDER", "ROWS", "RANGE", "GROUPS"].contains k do skip
  | _ => pure ()
  let partition ← clauseBy "PARTITION" (commaLists exprQueries)
  let order ← clauseBy "ORDER" (commaLists orderItem)
  if ← symbol ")" then return partition ++ order
  else
    discard (keywordOf ["ROWS", "RANGE", "GROUPS"])
    let frame ←
      if ← keyword "BETWEEN" then
        let low ← frameBound atom
        expectKeyword "AND"
        pure (low ++ (← frameBound atom))
      else frameBound atom
    expectSymbol ")"
    return partition ++ order ++ frame

/-! ### Calls -/

/-- What binds the name of an argument to its value. -/
def argumentOperator : Parser Unit := do
  unless ← keyword "VALUE" do
    unless ← symbol "=>" do
      ensure (← isDialect .postgresql)
      expectSymbol ":"

/-- An argument whose name may be any expression. The expression is read once: if no operator
follows it, it is the argument itself. -/
def argumentByExpr : Parser (List Query) := do
  let start ← get
  match ← attempt expr with
  | some named =>
    let behind ← get
    match ← attempt (do argumentOperator; wildcardTerm) with
    | some t => return named.queries ++ t.queries
    | none =>
      set start
      if ← wildcard then return []
      else
        set behind
        return named.queries
  | none =>
    ensure (← wildcard)
    return []

/-- An argument of a call. -/
def argument : Parser (List Query) := do
  if ← isDialect .postgresql then argumentByExpr
  else
    match ← attempt (do discard ident; argumentOperator; wildcardTerm) with
    | some t => return t.queries
    | none => Term.queries <$> wildcardTerm

/-- `RESPECT NULLS` or `IGNORE NULLS`, if one of the two verbs comes next. -/
def nullTreatment : Parser Unit := do
  if (← keywordOf? ["RESPECT", "IGNORE"]).isSome then expectKeyword "NULLS"

/-- The clauses of JSON constructors. -/
def jsonClauses : Parser Unit := do
  unless ← keywords ["ABSENT", "ON", "NULL"] do discard (keywords ["NULL", "ON", "NULL"])
  if ← keyword "RETURNING" then discard dataType

/-- What to do when a list of values grows too long. -/
def overflowClause : Parser (List Query) := do
  if ← keywords ["ON", "OVERFLOW"] then
    if ← keyword "ERROR" then return []
    else
      expectKeyword "TRUNCATE"
      let filler ←
        if ← atAny ["WITH", "WITHOUT"] then pure []
        else match ← peekToken with
          | some (.literal kind _) =>
            if [.single, .escaped, .unicode, .national, .hex].contains kind then exprQueries
            else misfit
          | _ => misfit
      discard (keywordOf ["WITH", "WITHOUT"])
      expectKeyword "COUNT"
      return filler
  else return []

/-- Arguments and the clauses among them, behind the opening parenthesis. -/
def argumentList : Parser (List Query) := do
  jsonClauses
  if ← symbol ")" then return []
  else
    let all ← keyword "ALL"
    let distinct ← keyword "DISTINCT"
    ensure !(all && distinct)
    let args ← commaLists argument
    nullTreatment
    let order ← clauseBy "ORDER" (commaLists orderItem)
    let limit ← clause "LIMIT" exprQueries
    if ← both (isDialect .mysql) (keyword "SEPARATOR") then value
    let filler ← overflowClause
    jsonClauses
    expectSymbol ")"
    return args ++ order ++ limit ++ filler

/-- `FILTER (WHERE …)`. A condition that does not follow is no error. -/
def filterClause : Parser (List Query) := do
  if ← isDialect .mysql then return []
  else if ← both (keyword "FILTER") (both (symbol "(") (keyword "WHERE")) then
    let qs ← exprQueries
    expectSymbol ")"
    return qs
  else return []

/-- A call from its opening parenthesis on. -/
def call (atom : Parser Term) : Parser Term := do
  expectSymbol "("
  let args ← argumentList
  let within ←
    if ← keywords ["WITHIN", "GROUP"] then
      parenthesized (do expectKeywords ["ORDER", "BY"]; commaLists orderItem)
    else pure []
  let filter ← filterClause
  nullTreatment
  let frame ←
    if ← keyword "OVER" then
      if ← symbol "(" then windowSpec atom
      else do
        discard ident
        pure []
    else pure []
  return ⟨.call, args ++ filter ++ frame ++ within⟩

/-! ### Words that introduce an expression -/

/-- The branches of `CASE` from the first condition on. -/
def caseBranches : Nat → Parser (List Query)
  | 0 => misfit
  | fuel + 1 => do
    let condition ← exprQueries
    expectKeyword "THEN"
    let result ← exprQueries
    let more ← if ← keyword "WHEN" then caseBranches fuel else pure []
    return condition ++ result ++ more

/-- What follows `CASE`. -/
def caseTerm : Parser Term := do
  let operand ←
    if ← keyword "WHEN" then pure []
    else do
      let qs ← exprQueries
      expectKeyword "WHEN"
      pure qs
  let branches ← withFuel caseBranches
  let otherwise ← clause "ELSE" exprQueries
  expectKeyword "END"
  return .of (operand ++ branches ++ otherwise)

/-- What follows `CAST`. -/
def castTerm : Parser Term := parenthesized do
  let qs ← exprQueries
  expectKeyword "AS"
  discard dataType
  if ← keyword "FORMAT" then
    value
    if ← keywords ["AT", "TIME", "ZONE"] then value
  return .of qs

/-- What follows `CONVERT`. -/
def convertTerm : Parser Term := parenthesized do
  let qs ← exprQueries
  if ← keyword "USING" then discard name
  else
    expectSymbol ","
    discard dataType
    if ← keywords ["CHARACTER", "SET"] then discard name
  return .of qs

/-- What follows `EXISTS`. -/
def existsTerm : Parser Term := do
  return .of [← parenthesized query]

/-- What follows `EXTRACT`. -/
def extractTerm : Parser Term := parenthesized do
  discard timePart
  expectKeyword "FROM"
  return .of (← exprQueries)

/-- What follows `CEIL` or `FLOOR`. -/
def roundTerm : Parser Term := parenthesized do
  let qs ← exprQueries
  if ← keyword "TO" then discard timePart
  else if ← symbol "," then
    match ← peekToken with
    | some (.number _ _) => skip
    | _ => misfit
  return .of qs

/-- What follows `POSITION`. -/
def positionTerm (atom : Parser Term) : Parser Term := do
  let d ← dialect
  let found ← attempt (parenthesized do
    let what ← termAbove (Tier.between.power d)
    expectKeyword "IN"
    return what.queries ++ (← exprQueries))
  match found with
  | some qs => return .of qs
  | none => call atom

/-- What follows `SUBSTRING`. -/
def substringTerm : Parser Term := parenthesized do
  let text ← exprQueries
  let start ← if ← either (symbol ",") (keyword "FROM") then exprQueries else pure []
  let count ← if ← either (keyword "FOR") (symbol ",") then exprQueries else pure []
  return .of (text ++ start ++ count)

/-- What follows `OVERLAY`. -/
def overlayTerm : Parser Term := parenthesized do
  let text ← exprQueries
  expectKeyword "PLACING"
  let what ← exprQueries
  expectKeyword "FROM"
  let start ← exprQueries
  let count ← clause "FOR" exprQueries
  return .of (text ++ what ++ start ++ count)

/-- What follows `TRIM`. The text comes before what is trimmed from it. -/
def trimTerm : Parser Term := parenthesized do
  discard (keywordOf? ["BOTH", "LEADING", "TRAILING"])
  let first ← exprQueries
  let text ← clause "FROM" exprQueries
  return .of (text ++ first)

/-- What follows `MATCH` where that is a full-text search. -/
def matchTerm : Parser Term := do
  discard nameList
  expectKeyword "AGAINST"
  expectSymbol "("
  value
  if ← keywords ["IN", "NATURAL", "LANGUAGE", "MODE"] then
    discard (keywords ["WITH", "QUERY", "EXPANSION"])
  else unless ← keywords ["IN", "BOOLEAN", "MODE"] do
    discard (keywords ["WITH", "QUERY", "EXPANSION"])
  expectSymbol ")"
  return .of []

/-- What follows `NOT`. -/
def notTerm : Parser Term := do
  if ← keyword "EXISTS" then existsTerm
  else return .of (← termAbove (Tier.not.power (← dialect))).queries

/-- A list in square brackets, behind the opening one. -/
def arrayTerm : Parser Term := do
  let qs ← if ← atSymbol "]" then pure [] else commaLists exprQueries
  expectSymbol "]"
  return .of qs

/-- A function that may go without parentheses. -/
def timeFunction : Parser Term := do
  return ⟨.call, ← if ← symbol "(" then argumentList else pure []⟩

/-- The construct that a keyword introduces, if it introduces one before what follows. -/
def construct? (d : Dialect) (atom : Parser Term) (k : String) (behind : Option Token) :
    Option (Parser Term) :=
  match k with
  | "TRUE" | "FALSE" | "NULL" => some (pure ⟨.value, []⟩)
  | "CURRENT_CATALOG" | "CURRENT_USER" | "SESSION_USER" | "USER" =>
    if d = .postgresql then some (pure ⟨.call, []⟩) else none
  | "CURRENT_TIMESTAMP" | "CURRENT_TIME" | "CURRENT_DATE" | "LOCALTIME" | "LOCALTIMESTAMP" =>
    some timeFunction
  | "CASE" => some caseTerm
  | "CONVERT" => some convertTerm
  | "CAST" | "TRY_CAST" | "SAFE_CAST" => some castTerm
  | "EXISTS" => some existsTerm
  | "EXTRACT" => some extractTerm
  | "CEIL" | "FLOOR" => some roundTerm
  | "POSITION" => if behind == some (.symbol "(") then some (positionTerm atom) else none
  | "SUBSTR" | "SUBSTRING" => some substringTerm
  | "OVERLAY" => some overlayTerm
  | "TRIM" => some trimTerm
  | "INTERVAL" => some (intervalTerm atom)
  | "ARRAY" =>
    if behind == some (.symbol "[") then some (do expectSymbol "["; arrayTerm)
    else if behind == some (.symbol "(") then
      some do return ⟨.call, [← parenthesized query]⟩
    else none
  | "NOT" => some notTerm
  | "MATCH" => if d = .mysql then some matchTerm else none
  | "CIRCLE" | "BOX" | "PATH" | "LINE" | "LSEG" | "POINT" | "POLYGON" =>
    if d = .postgresql then
      some do
        value
        return .of []
    else none
  | _ => none

/-- A word as a column or as a function. -/
def wordTerm (atom : Parser Term) (i : Ident) : Parser Term := do
  match ← peekToken with
  | some (.symbol "(") => call atom
  | some (.literal kind _) =>
    if [.single, .double, .hex].contains kind && i.text.startsWith "_" then
      skip
      return .of []
    else return ⟨.identifier i, []⟩
  | _ => return ⟨.identifier i, []⟩

/-! ### Operands -/

/-- An escape in braces, behind the opening one. -/
def bracedTerm (atom : Parser Term) : Parser Term := do
  let called ← attempt (do
    expectKeyword "FN"
    discard name
    call atom)
  match called with
  | some t =>
    expectSymbol "\x7d"
    return t
  | none =>
    match (← next).bind (·.token.bareWord?) with
    | some w =>
      ensure (["d", "t", "ts"].contains w)
      value
      expectSymbol "\x7d"
      return .of []
    | none => misfit

/-- An expression in parentheses, behind the opening one. -/
def groupTerm : Parser Term := do
  let qs ←
    if ← atAny ["SELECT", "WITH"] then pure [← query]
    else commaLists exprQueries
  expectSymbol ")"
  return .of qs

/-- Operators before an operand, with the binding power of what they take. -/
def unaryPower? (d : Dialect) (s : String) : Option Nat :=
  if s == "-" || s == "+" then some (Tier.product.power d)
  else if s == "~" then some (Tier.sum.power d)
  else if d == .postgresql &&
      ["!!", "|/", "||/", "@", "#", "@-@", "@@", "?-", "?|"].contains s then
    some (Tier.sum.power d)
  else none

/-- An operand that is no typed literal. -/
def plainOperand (atom : Parser Term) : Parser Term := do
  let d ← dialect
  let start ← get
  match ← next with
  | none => misfit
  | some l =>
    match l.token with
    | .word text quote =>
      let word := wordTerm atom ⟨text, quote⟩
      match construct? d atom l.keyword (← peekToken) with
      | none => word
      | some construct =>
        if (reservedForIdent d).contains l.keyword then construct
        else orElseInstead construct word
    | .symbol s =>
      if s == "[" then arrayTerm
      else if s == "(" then groupTerm
      else if s == "\x7b" then bracedTerm atom
      else match unaryPower? d s with
        | some power => return .of (← termAbove power).queries
        | none =>
          set start
          valueTerm
    | .number _ _ | .literal _ _ | .placeholder _ =>
      set start
      valueTerm
    | _ => misfit

/-- An operand, with at most as many intervals inside each other as there is fuel. -/
def operandWithin : Nat → Parser Term
  | 0 => misfit
  | fuel + 1 => do
    match ← attempt (typedLiteral (operandWithin fuel)) with
    | some t => return t
    | none =>
      let t ← plainOperand (operandWithin fuel)
      if ← keyword "COLLATE" then
        discard name
        return .of t.queries
      else return t

/-- An operand. -/
def operand : Parser Term := withFuel operandWithin

/-! ### Periods and subscripts -/

/-- A subscript or a slice, behind the opening bracket. -/
def subscript : Parser (List Query) := do
  let power := Tier.colon.power (← dialect)
  let bound := Term.queries <$> termAbove power
  let low ← if ← symbol ":" then pure none else some <$> bound
  if ← symbol "]" then return low.getD []
  else
    if low.isSome then expectSymbol ":"
    if ← symbol "]" then return low.getD []
    else
      let high ← bound
      if ← symbol "]" then return low.getD [] ++ high
      else
        expectSymbol ":"
        if ← symbol "]" then return low.getD [] ++ high
        else
          let stride ← bound
          expectSymbol "]"
          return low.getD [] ++ high ++ stride

/-- The shape of an expression after one more period: names stay a path, and a path may end in a
call. -/
def Shape.join : Shape → Shape → Shape
  | .identifier _, .identifier _ | .identifier _, .path => .path
  | .path, .identifier _ | .path, .path => .path
  | .identifier _, .call | .path, .call => .call
  | _, _ => .access

/-- What may follow a period. -/
def afterPeriod : Parser Term := do
  match ← peekToken with
  | some (.literal .single text) =>
    skip
    return ⟨.identifier ⟨text, some '\x27'⟩, []⟩
  | some (.placeholder text) =>
    skip
    return ⟨.identifier ⟨text, none⟩, []⟩
  | _ =>
    let part ← attempt (do
      let t ← termAbove (Tier.period.power (← dialect))
      ensure (t.shape != .other && t.shape != .wildcard)
      return t)
    match part with
    | some t => return t
    | none => return ⟨.identifier (← ident), []⟩

/-- Whether an expression is a name. -/
def Shape.isName : Shape → Bool
  | .identifier _ => true
  | .path => true
  | _ => false

/-- The periods and subscripts after an expression. -/
def access : Nat → Term → Parser Term
  | 0, t => pure t
  | fuel + 1, t => do
    let start ← get
    if ← symbol "." then
      if ← atSymbol "*" then
        if ← isDialect .postgresql then
          skip
          ensure t.shape.isName
          return ⟨.wildcard, t.queries⟩
        else
          set start
          return t
      else
        let part ← afterPeriod
        access fuel ⟨t.shape.join part.shape, t.queries ++ part.queries⟩
    else if ← symbol "[" then
      let qs ← subscript
      access fuel ⟨.access, t.queries ++ qs⟩
    else return t

/-! ### Infix operators -/

/-- The right side of a binary operator; after a comparison it may be quantified. -/
def rightSide (power : Nat) (comparison : Bool) : Parser (List Query) := do
  if (← keywordOf? ["ANY", "ALL", "SOME"]).isSome then
    let start ← get
    expectSymbol "("
    let qs ←
      if ← atAny ["SELECT", "WITH"] then
        set start
        Term.queries <$> termAbove power
      else
        let qs ← Term.queries <$> termAbove power
        expectSymbol ")"
        pure qs
    ensure comparison
    return qs
  else Term.queries <$> termAbove power

/-- What follows `IS`. -/
def isOperand : Parser (List Query) := do
  if ← keywords ["NOT", "DISTINCT", "FROM"] then exprQueries
  else if ← keywords ["DISTINCT", "FROM"] then exprQueries
  else
    discard (keyword "NOT")
    if (← keywordOf? ["NULL", "TRUE", "FALSE", "UNKNOWN"]).isSome then return []
    else
      discard (keywordOf? ["NFC", "NFD", "NFKC", "NFKD"])
      expectKeyword "NORMALIZED"
      return []

/-- What follows `IN`. -/
def inOperand : Parser (List Query) := do
  if ← keyword "UNNEST" then parenthesized exprQueries
  else parenthesized do
    match ← attempt query with
    | some q => return [q]
    | none =>
      if ← both (isDialect .sqlite) (atSymbol ")") then return []
      else commaLists exprQueries

/-- The pattern of `LIKE` and its kin, and the escape character. -/
def patternOperand : Parser (List Query) := do
  discard (keyword "ANY")
  let qs ← Term.queries <$> termAbove (Tier.like.power (← dialect))
  if ← keyword "ESCAPE" then value
  return qs

/-- What follows `BETWEEN`. -/
def betweenOperand : Parser (List Query) := do
  let side := do return (← termAbove (Tier.between.power (← dialect))).queries
  let low ← side
  expectKeyword "AND"
  return low ++ (← side)

/-- A predicate that may be negated: `IN`, `BETWEEN`, `LIKE` and its kin, `NOT NULL`. -/
def predicate : Parser (List Query) := do
  let negated ← keyword "NOT"
  let regexp ← keyword "REGEXP"
  let rlike ← keyword "RLIKE"
  let null ← keyword "NULL"
  if regexp || rlike then return (← termAbove (Tier.like.power (← dialect))).queries
  else if negated && null then return []
  else if ← keyword "IN" then inOperand
  else if ← keyword "BETWEEN" then betweenOperand
  else if (← keywordOf? ["LIKE", "ILIKE"]).isSome then patternOperand
  else if ← keywords ["SIMILAR", "TO"] then
    let qs ← Term.queries <$> termAbove (Tier.like.power (← dialect))
    if ← keyword "ESCAPE" then value
    return qs
  else misfit

/-- An operator by its name, in parentheses: any tokens with periods between them. -/
def operatorName : Nat → Parser Unit
  | 0 => misfit
  | fuel + 1 => do
    skip
    if ← symbol "." then operatorName fuel

/-- Infix operators of one dialect that leave the grammar without an answer if no expression
follows them. -/
def ownOperators (d : Dialect) : List String :=
  match d with
  | .postgresql => []
  | .mysql => ["DIV"]
  | .sqlite => ["REGEXP", "MATCH"]

/-- The infix operator that comes next, with binding power `power`, and its right side. -/
def infixOperand (power : Nat) : Parser (List Query) := do
  let d ← dialect
  if (← keywordOf? (ownOperators d)).isSome then insist exprQueries
  else
    match ← get with
    | [] => misfit
    | l :: rest =>
      if isBinary d l.token then
        set rest
        rightSide power (match l.token with
          | .symbol s => comparisonSymbols.contains s
          | _ => false)
      else match l.keyword with
        | "AND" | "OR" | "XOR" | "OVERLAPS" =>
          set rest
          rightSide power false
        | "OPERATOR" =>
          ensure (d == .postgresql)
          set rest
          parenthesized (withFuel operatorName)
          rightSide power false
        | "IS" =>
          set rest
          isOperand
        | "AT" =>
          set rest
          expectKeywords ["TIME", "ZONE"]
          return (← termAbove power).queries
        | "NOT" | "IN" | "BETWEEN" | "LIKE" | "ILIKE" | "SIMILAR" | "REGEXP" | "RLIKE" => predicate
        | "NOTNULL" =>
          set rest
          return []
        | "MEMBER" =>
          set rest
          expectKeyword "OF"
          parenthesized exprQueries
        | _ =>
          set rest
          match l.token with
          | .symbol "::" =>
            discard dataType
            return []
          | .symbol "!" =>
            ensure (d == .postgresql)
            return []
          | _ => misfit

/-- The infix operators after an expression that bind tighter than `power`. -/
def infixes (power : Nat) : Nat → Term → Parser Term
  | 0, t => pure t
  | fuel + 1, t => do
    let strength := infixPower (← dialect) (← get)
    if strength ≤ power then return t
    else
      let qs ← infixOperand strength
      infixes power fuel (.of (t.queries ++ qs))

/-- An expression up to the first operator that binds no tighter than `power`. -/
def termBody (power : Nat) : Parser Term := do
  let t ← operand
  let t ← withFuel fun fuel => access fuel t
  withFuel fun fuel => infixes power fuel t

end QueryGate.Sql.Parser
