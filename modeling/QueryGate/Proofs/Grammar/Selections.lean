import Mathlib
import QueryGate.Proofs.Grammar.Steps
import QueryGate.Proofs.Lexing.Names
import QueryGate.Relations

namespace QueryGate.Sql.Parser

/-!
# Selections from a table

The grammar has one reading of `select * from` and a dotted name, whatever the words of the name
are, unless the first one opens another item of a `FROM` clause.

* `dotted_name` — the tokens of a dotted name are taken as that name;
* `sources_name` — a name is an item of a `FROM` clause unless its first word opens another one;
* `parseTokens_selection` — the statement that is read;
* `tables_selection` — the table that it reads.
-/

variable {env : Env} {d : Dialect}

/-! ### The name -/

/-- The lexemes of a dotted name, as they stand behind a blank. -/
def nameLexemes (i : Ident) (ids : Name) : List Lexeme := lexemes false (nameTokens (i :: ids))

theorem dotted_name (i : Ident) (ids : Name) (attached : Bool) {fuel : Nat}
    (hfuel : ids.length ≤ fuel) :
    dotted (fuel + 1) env (lexemes attached (nameTokens (i :: ids))) = .ok (i :: ids, []) := by
  induction ids generalizing i attached fuel with
  | nil => rfl
  | cons j ids ih =>
    cases fuel with
    | zero => cases hfuel
    | succ fuel =>
      -- a period ahead asks for one more name
      have hrest := ih j true (Nat.le_of_succ_le_succ hfuel)
      have hsplit : lexemes attached (nameTokens (i :: j :: ids))
          = ⟨i.token, i.token.keyword, attached⟩ :: ⟨.symbol ".", "", true⟩ ::
            lexemes true (nameTokens (j :: ids)) := rfl
      rw [hsplit, dotted, bind_of_ok (a := i) rfl, bind_of_ok (a := true) rfl, if_pos rfl,
        bind_of_ok hrest]
      rfl

/-- Every part of a name is a lexeme of its own. -/
theorem length_le_nameLexemes (i : Ident) (ids : Name) (attached : Bool) :
    ids.length ≤ (lexemes attached (nameTokens (i :: ids))).length := by
  induction ids generalizing i attached with
  | nil => exact Nat.zero_le _
  | cons j ids ih => exact Nat.succ_le_succ (Nat.le_succ_of_le (ih j true))

/-- A name with nothing behind it is a table. -/
theorem namedTable_name (i : Ident) (ids : Name) :
    namedTable env (nameLexemes i ids) = .ok ([.relation (i :: ids)], []) := by
  have hname : name env (nameLexemes i ids) = .ok (i :: ids, []) := by
    rw [name, withFuel, bind_of_ok rfl]
    exact dotted_name i ids false (length_le_nameLexemes i ids false)
  rw [namedTable, bind_of_ok hname]
  obtain ⟨d, query, term⟩ := env
  cases d <;> rfl

/-! ### The source -/

/-- The words that open an item of a `FROM` clause that is no table. -/
def itemOpeners (d : Dialect) : List String :=
  if d = .postgresql then ["LATERAL", "TABLE", "UNNEST"] else ["LATERAL", "TABLE"]

/-- What is looked for in front of a table is not there. -/
theorem both_dialect_of_ne {k : String} {l : Lexeme} {ls : List Lexeme}
    (h : env.dialect = d → l.keyword ≠ k) :
    both (isDialect d) (keyword k) env (l :: ls) = .ok (false, l :: ls) := by
  have hdialect : isDialect d env (l :: ls) = .ok (env.dialect == d, l :: ls) := rfl
  rw [both, bind_of_ok hdialect]
  by_cases hd : env.dialect = d
  · rw [if_pos (by simpa using hd), keyword_of_ne (h hd)]
  · rw [if_neg (by simpa using hd)]
    rfl

/-- A name is a table among the items of a `FROM` clause, unless its first word opens another
    one. -/
theorem itemWithin_name {i : Ident} (hi : i.token.keyword ∉ itemOpeners env.dialect) (ids : Name)
    (fuel : Nat) :
    itemWithin (fuel + 1) env (nameLexemes i ids) = .ok (.of [.relation (i :: ids)], []) := by
  have htable : namedTable env (nameLexemes i ids) = _ := namedTable_name i ids
  have hitem := map_of_ok (f := Source.of) htable
  obtain ⟨ls, hls, hbehind⟩ : ∃ ls,
      nameLexemes i ids = ⟨i.token, i.token.keyword, false⟩ :: ls ∧
        (ls = [] ∨ ∃ rest, ls = ⟨.symbol ".", "", true⟩ :: rest) := by
    cases ids with
    | nil => exact ⟨[], rfl, .inl rfl⟩
    | cons j ids => exact ⟨_, rfl, .inr ⟨_, rfl⟩⟩
  have hne : i.token.keyword ≠ "LATERAL" ∧ i.token.keyword ≠ "TABLE" ∧
      (env.dialect = .postgresql → i.token.keyword ≠ "UNNEST") := by
    unfold itemOpeners at hi
    split at hi
    · next hd => simpa [hd] using hi
    · next hd => simpa [hd] using hi
  rw [hls] at hitem ⊢
  rw [itemWithin, bind_of_ok (keyword_of_ne hne.1), if_neg Bool.false_ne_true,
    bind_of_ok (keyword_of_ne hne.2.1), if_neg Bool.false_ne_true, bind_of_ok (a := false) rfl,
    if_neg Bool.false_ne_true, bind_of_ok (both_dialect_of_ne hne.2.2), if_neg Bool.false_ne_true,
    bind_of_ok (a := ⟨i.token, i.token.keyword, false⟩ :: ls) rfl]
  -- behind the first word stands no parenthesis
  rcases hbehind with rfl | ⟨rest, rfl⟩
  · exact hitem
  · exact hitem

/-- A name is all that a `FROM` clause holds. -/
theorem sources_name {i : Ident} (hi : i.token.keyword ∉ itemOpeners env.dialect) (ids : Name) :
    sources env (nameLexemes i ids) = .ok ([.relation (i :: ids)], []) := by
  have hitem : withFuel itemWithin env (nameLexemes i ids)
      = .ok (.of [.relation (i :: ids)], []) := by
    rw [withFuel, bind_of_ok rfl, itemWithin_name hi]
  have hsource : source env (nameLexemes i ids) = .ok ([.relation (i :: ids)], []) := by
    rw [source, joined, bind_assoc, bind_of_ok hitem]
    rfl
  have hlist : commaList source env (nameLexemes i ids) = .ok ([[.relation (i :: ids)]], []) := by
    rw [commaList, withFuel, bind_of_ok rfl, listOf, bind_of_ok hsource]
    rfl
  exact map_of_ok hlist

/-! ### The statement -/

/-- The tokens before the name. -/
def selectionFront : List Token :=
  [.word "select" none, .blank .space, .symbol "*", .blank .space, .word "from" none, .blank .space]

/-- The lexemes before the name, without the first. -/
def starFrom : List Lexeme := [⟨.symbol "*", "", false⟩, ⟨.word "from" none, "FROM", false⟩]

/-- The query that reads all of a table. -/
def selection (name : Name) : Query := .mk false [] (.select none [.relation name]) [] []

/-- The body `SELECT * FROM name` reads that name. -/
theorem selectBody_name {i : Ident} (hi : i.token.keyword ∉ itemOpeners env.dialect) (ids : Name) :
    selectBody env (starFrom ++ nameLexemes i ids)
      = .ok (.select none [.relation (i :: ids)], []) := by
  have hsources := sources_name hi ids
  generalize nameLexemes i ids = ls at hsources ⊢
  have hitems : projection env (starFrom ++ ls) = .ok ([], starFrom.tail ++ ls) := by
    obtain ⟨d, query, term⟩ := env
    cases d <;> rfl
  have hfrom : clause "FROM" sources env (starFrom.tail ++ ls)
      = .ok ([.relation (i :: ids)], []) := by
    rw [clause, bind_of_ok (a := true) (r := ls) rfl, if_pos rfl, hsources]
  rw [selectBody, bind_of_ok (a := []) (r := starFrom ++ ls) rfl,
    bind_of_ok (a := []) (r := starFrom ++ ls) rfl, bind_of_ok hitems,
    bind_of_ok (a := none) (r := starFrom.tail ++ ls) rfl, bind_of_ok hfrom]
  rfl

/-- All lexemes of the statement. -/
def selectionLexemes (i : Ident) (ids : Name) : List Lexeme :=
  ⟨.word "select" none, "SELECT", false⟩ :: (starFrom ++ nameLexemes i ids)

/-- The query `SELECT * FROM name` reads that name. -/
theorem queryHere_name {i : Ident} (hi : i.token.keyword ∉ itemOpeners env.dialect) (ids : Name) :
    queryHere env (selectionLexemes i ids) = .ok (selection (i :: ids), []) := by
  have hselect := selectBody_name hi ids
  unfold selectionLexemes
  -- behind the first word the lexemes stay closed, so that each step looks at that word alone
  generalize starFrom ++ nameLexemes i ids = ls at hselect ⊢
  have hsimple : simpleBody env (⟨.word "select" none, "SELECT", false⟩ :: ls)
      = .ok (.select none [.relation (i :: ids)], []) := by
    rw [simpleBody, bind_of_ok (a := true) (r := ls) rfl, if_pos rfl, hselect]
  have hmeet : intersections env (⟨.word "select" none, "SELECT", false⟩ :: ls)
      = .ok (.select none [.relation (i :: ids)], []) := by
    rw [intersections, bind_of_ok hsimple]
    rfl
  have hbody : queryBody env (⟨.word "select" none, "SELECT", false⟩ :: ls)
      = .ok (.select none [.relation (i :: ids)], []) := by
    rw [queryBody, bind_of_ok hmeet]
    rfl
  rw [queryHere, bind_of_ok (a := false) (r := ⟨.word "select" none, "SELECT", false⟩ :: ls) rfl]
  dsimp only
  rw [if_neg Bool.false_ne_true, pure_bind]
  dsimp only
  rw [bind_of_ok (a := none) (r := ⟨.word "select" none, "SELECT", false⟩ :: ls) rfl]
  dsimp only
  rw [bind_of_ok hbody]
  rfl

/-- **Selections.** The tokens of `select * from` and a dotted name are one query that reads the
    table with that name. -/
theorem parseTokens_selection {i : Ident} (hi : i.token.keyword ∉ itemOpeners d) (ids : Name) :
    parseTokens d (selectionFront ++ nameTokens (i :: ids))
      = .ok [.query (selection (i :: ids))] := by
  have hlexemes : lexemes false (selectionFront ++ nameTokens (i :: ids))
      = selectionLexemes i ids := rfl
  -- from the query up to the list of statements, one level after the other
  have hhere : queryHere (env d (levels - 2)) (selectionLexemes i ids)
      = .ok (selection (i :: ids), []) := queryHere_name hi ids
  have hquery : query (env d (levels - 1)) (selectionLexemes i ids)
      = .ok (selection (i :: ids), []) := hhere
  have hstatement : statement (env d (levels - 1)) (selectionLexemes i ids)
      = .ok (.query (selection (i :: ids)), []) := by
    rw [statement, bind_of_ok (a := true) (r := selectionLexemes i ids) rfl, if_pos rfl,
      bind_of_ok hquery]
    rfl
  have hlist : withFuel statementList (env d (levels - 1)) (selectionLexemes i ids)
      = .ok ([.query (selection (i :: ids))], []) := by
    rw [withFuel, bind_of_ok rfl, statementList,
      bind_of_ok (a := ()) (r := selectionLexemes i ids) rfl,
      bind_of_ok (a := (selectionLexemes i ids).head?) (r := selectionLexemes i ids) rfl,
      if_neg (by simp [selectionLexemes]), bind_of_ok hstatement]
    rfl
  rw [parseTokens, hlexemes, hlist]
  rfl

/-- A query that reads all of a table reads that table. -/
theorem tables_selection (name : Name) :
    (Statement.query (selection name)).tables = [TableName.ofName name] := by
  simp [selection, Statement.tables, Statement.visits, Query.visits, boundNames, cteVisits,
    Body.visits, readVisits, queryVisits, Walk.start, Walk.step, Walk.binds, firstOccurrences]

end QueryGate.Sql.Parser
