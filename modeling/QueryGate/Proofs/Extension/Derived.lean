import QueryGate.Proofs.Extension.Statements

namespace QueryGate.Sql

/-- All of a query, selected from it as a derived table. -/
def Query.derived (q : Query) : Query := .mk false [] (.select none [.query q]) [] []

namespace Parser

/-!
# A statement as a derived table

What stands around a derived table has one reading: all is selected from one source, and behind its
name stands a limit.  The table itself is a query in parentheses, which is read with one level less
to spend than a statement; behind it stands the closing parenthesis instead of nothing.

* `sources_derived`, `selectBody_derived` — the clauses, given what the parentheses hold;
* `queryHere_derived` — the query, which is a selection from the one in parentheses;
* `parseTokens_derived` — the same for the tokens of a statement.
-/

variable {d : Dialect} {n : Nat} {q : Query} {ls rest : List Lexeme} {a b : Bool} {count : String}

/-! ### The source -/

/-- What stands behind the closing parenthesis. -/
def aliasLexemes : List Lexeme :=
  [⟨.word "AS" none, "AS", false⟩, ⟨.word "guarded_result" none, "GUARDED_RESULT", false⟩]

/-- A query behind an opening parenthesis, with the name behind the closing one. -/
theorem derivedTable_alias
    (h : query (env d (n + 1)) ls = .ok (q, closing a :: (aliasLexemes ++ limit b count))) :
    derivedTable (env d (n + 1)) ls = .ok ([.query q], limit b count) := by
  have halias : tableAlias (env d (n + 1)) (aliasLexemes ++ limit b count)
      = .ok ((), limit b count) := by cases d <;> rfl
  have hclose : expectSymbol ")" (env d (n + 1)) (closing a :: (aliasLexemes ++ limit b count))
      = .ok ((), aliasLexemes ++ limit b count) := rfl
  rw [derivedTable, bind_of_ok h, bind_of_ok hclose, bind_of_ok halias]
  rfl

/-- It is all that the `FROM` clause holds. -/
theorem sources_derived
    (h : query (env d (n + 1)) ls = .ok (q, closing a :: (aliasLexemes ++ limit b count))) :
    sources (env d (n + 1)) (opening false :: ls) = .ok ([.query q], limit b count) := by
  -- the attempt at a derived table succeeds, so no join is tried
  have hattempt : attempt derivedTable (env d (n + 1)) ls = .ok (some [.query q], limit b count) := by
    rw [attempt, derivedTable_alias h]
  have hitem : withFuel itemWithin (env d (n + 1)) (opening false :: ls)
      = .ok (.of [.query q], limit b count) := by
    have hlateral : keyword "LATERAL" (env d (n + 1)) (opening false :: ls)
        = .ok (false, opening false :: ls) := rfl
    have htable : keyword "TABLE" (env d (n + 1)) (opening false :: ls)
        = .ok (false, opening false :: ls) := rfl
    have hsymbol : symbol "(" (env d (n + 1)) (opening false :: ls) = .ok (true, ls) := rfl
    rw [withFuel, bind_of_ok rfl, itemWithin_succ, bind_of_ok hlateral,
      if_neg Bool.false_ne_true, bind_of_ok htable, if_neg Bool.false_ne_true,
      bind_of_ok hsymbol, if_pos rfl, bind_of_ok hattempt]
    rfl
  -- one item without a join
  have hsource : source (env d (n + 1)) (opening false :: ls) = .ok ([.query q], limit b count) := by
    rw [source, joined, bind_assoc, bind_of_ok hitem]
    rfl
  -- one item without a comma
  have hlist : commaList source (env d (n + 1)) (opening false :: ls)
      = .ok ([[.query q]], limit b count) := by
    rw [commaList, withFuel, bind_of_ok rfl, listOf, bind_of_ok hsource]
    rfl
  exact map_of_ok hlist

/-! ### The query -/

/-- The lexemes before the source, without the first. -/
def starFromFront : List Lexeme := [⟨.symbol "*", "", false⟩, ⟨.word "FROM" none, "FROM", false⟩]

/-- The body `SELECT * FROM ( … ) AS guarded_result` reads the query in parentheses and nothing
    else. -/
theorem selectBody_derived
    (h : query (env d (n + 1)) ls = .ok (q, closing a :: (aliasLexemes ++ limit b count))) :
    selectBody (env d (n + 1)) (starFromFront ++ opening false :: ls)
      = .ok (.select none [.query q], limit b count) := by
  have hsources := sources_derived h
  generalize opening false :: ls = ms at hsources ⊢
  have hitems : projection (env d (n + 1)) (starFromFront ++ ms)
      = .ok ([], starFromFront.tail ++ ms) := by cases d <;> rfl
  have hfrom : clause "FROM" sources (env d (n + 1)) (starFromFront.tail ++ ms)
      = .ok ([.query q], limit b count) := by
    rw [clause, bind_of_ok (a := true) (r := ms) rfl, if_pos rfl, hsources]
  rw [selectBody, bind_of_ok (a := []) (r := starFromFront ++ ms) rfl,
    bind_of_ok (a := []) (r := starFromFront ++ ms) rfl, bind_of_ok hitems,
    bind_of_ok (a := none) (r := starFromFront.tail ++ ms) rfl, bind_of_ok hfrom]
  rfl

/-- All lexemes of a statement as a derived table. -/
def derivedLexemes (ls : List Lexeme) (a b : Bool) (count : String) : List Lexeme :=
  ⟨.word "SELECT" none, "SELECT", false⟩ ::
    (starFromFront ++ opening false :: (ls ++ closing a :: (aliasLexemes ++ limit b count)))

/-- A query in parentheses is read with one level less, and is all that is selected from. -/
theorem queryHere_derived (hfit : Fit false ls) (h : queryHere (env d n) ls = .ok (q, [])) :
    queryHere (env d (n + 1)) (derivedLexemes ls a b count) = .ok (q.derived, []) := by
  have hquery : query (env d (n + 1)) (ls ++ closing a :: (aliasLexemes ++ limit b count))
      = .ok (q, closing a :: (aliasLexemes ++ limit b count)) := by
    have hkeeps : Keeps .closed 0 ls.length queryHere queryHere := inferInstance
    have ht : Tails .closed [] (closing a :: (aliasLexemes ++ limit b count)) := .closed
    have hagree := hkeeps.runs (steady_env d n) ht hfit (Nat.zero_le _) le_rfl
    rw [List.append_nil, h] at hagree
    rcases hagree.cases with ⟨e, he, -⟩ | ⟨q', js, hq, hquery, -, -⟩
    · cases he
    · rw [List.append_nil] at hq
      cases hq
      exact hquery
  have hselect := selectBody_derived hquery
  unfold derivedLexemes
  -- behind the first word the lexemes stay closed, so that each step looks at that word alone
  generalize starFromFront ++ opening false :: (ls ++ closing a :: (aliasLexemes ++ limit b count))
    = ms at hselect ⊢
  have hsimple : simpleBody (env d (n + 1)) (⟨.word "SELECT" none, "SELECT", false⟩ :: ms)
      = .ok (.select none [.query q], limit b count) := by
    rw [simpleBody, bind_of_ok (a := true) (r := ms) rfl, if_pos rfl, hselect]
  have hmeet : intersections (env d (n + 1)) (⟨.word "SELECT" none, "SELECT", false⟩ :: ms)
      = .ok (.select none [.query q], limit b count) := by
    rw [intersections, bind_of_ok hsimple]
    rfl
  have hbody : queryBody (env d (n + 1)) (⟨.word "SELECT" none, "SELECT", false⟩ :: ms)
      = .ok (.select none [.query q], limit b count) := by
    rw [queryBody, bind_of_ok hmeet]
    rfl
  have hlimit : limitClause (env d (n + 1)) (limit b count) = .ok ([], []) := by
    rw [limitClause_eq, bind_of_ok (a := none) (r := limit b count) rfl]
    exact limitBehind_limit d n none b count
  have horder : clauseBy "ORDER" (commaLists orderItem) (env d (n + 1)) (limit b count)
      = .ok ([], limit b count) := rfl
  have hstart : queryStart (env d (n + 1)) (⟨.word "SELECT" none, "SELECT", false⟩ :: ms)
      = .ok ((false, []), ⟨.word "SELECT" none, "SELECT", false⟩ :: ms) := rfl
  have hverb : changeVerb? (env d (n + 1)) (⟨.word "SELECT" none, "SELECT", false⟩ :: ms)
      = .ok (none, ⟨.word "SELECT" none, "SELECT", false⟩ :: ms) := rfl
  rw [queryHere_eq, bind_of_ok hstart, bind_of_ok hverb]
  dsimp only
  rw [bodyQuery, bind_of_ok hbody, bind_of_ok horder, bind_of_ok hlimit]
  rfl

/-! ### The statement -/

/-- **Derived tables.** A statement whose lexemes are a query in parentheses is read as a selection
    from that query, if it becomes a derived table. -/
theorem parseTokens_derived {us : List Token} (hfit : Fit false ls)
    (hus : lexemes false us = derivedLexemes ls a b count)
    (h : queryHere (env d (levels - 3)) ls = .ok (q, [])) :
    parseTokens d us = .ok [.query q.derived] := by
  have hhere : queryHere (env d (levels - 2)) (derivedLexemes ls a b count)
      = .ok (q.derived, []) := queryHere_derived hfit h
  have hquery : query (env d (levels - 1)) (derivedLexemes ls a b count) = .ok (q.derived, []) :=
    hhere
  have hstatement : statement (env d (levels - 1)) (derivedLexemes ls a b count)
      = .ok (.query q.derived, []) := by
    rw [statement, bind_of_ok (a := true) (r := derivedLexemes ls a b count) rfl, if_pos rfl,
      bind_of_ok hquery]
    rfl
  have hlist : withFuel statementList (env d (levels - 1)) (derivedLexemes ls a b count)
      = .ok ([.query q.derived], []) := by
    rw [withFuel, bind_of_ok rfl, statementList,
      bind_of_ok (a := ()) (r := derivedLexemes ls a b count) rfl,
      bind_of_ok (a := (derivedLexemes ls a b count).head?) (r := derivedLexemes ls a b count) rfl,
      if_neg (by simp [derivedLexemes]), bind_of_ok hstatement]
    rfl
  rw [parseTokens, hus, hlist]
  rfl

end Parser

end QueryGate.Sql
