import QueryGate.Proofs.CappedReading
import QueryGate.Proofs.Grammar.Selections
import QueryGate.Proofs.LexicalScope

namespace QueryGate

open Sql

/-!
# A statement and its capped text

A gate that validates a statement lets it through as it stands; one that prepares it rewrites it
first, and holds the rewrite to the rules again.  The rewrite is text, so whether the two go
together is up to how the grammar reads what was added:

* `Gate.prepared_iff_of_validated` — a validated statement is prepared iff the capped text parses as
  one query of allowed tables: nothing else can go wrong, and with a count nothing does;
* `Gate.tables_of_prepared` — what is prepared reads the tables of the statement, if the statement
  is `Transparent`: it has a count, or its lexemes may stand before a limit, or they may stand in
  parentheses and are the same query there.

Not every statement is transparent.  Where `TABLE` stands in the place of a body, the grammar takes
three tokens behind it, whatever they are; so a derived table that ends in `TABLE`, a name and
`LIMIT` loses its closing parenthesis, fails, and is read as a join instead (`joinText_tables_ne`).
-/

/-! ### Selections from a query -/

/-- A derived table uses what its query uses. -/
theorem Sql.Query.derived_uses (q : Query) (scope : List Ident) : q.derived.uses scope = q.uses scope := by
  simp [derived, Query.uses, cteUses, Body.uses, readUses, queryUses]

/-- A selection from a query reads what the query reads, although everything stands one query
    deeper. -/
theorem Sql.Query.derived_tables (q : Query) :
    (Statement.query q.derived).tables = (Statement.query q).tables := by
  have huses : (Statement.query q.derived).uses = (Statement.query q).uses := q.derived_uses []
  rw [Statement.tables, Statement.tables, Statement.walk_tables, Statement.walk_tables, huses]

/-- The tables of a text that is one query are those of the query. -/
theorem referencedTables_of_query {d : Dialect} {cs : List Char} {q : Query}
    (h : parse d cs = .ok [.query q]) :
    referencedTables d cs = .ok (Statement.query q).tables := by
  simp [referencedTables, h, bind, Except.bind, pure, Except.pure]

/-! ### Transparent statements -/

/-- Statements that a cap does not change in what they read: with a count, or without a limit and
    such that one may follow, or with a limit that is no count and such that they are the same query
    in parentheses. -/
inductive Transparent (d : Dialect) (st : List Char) : Prop
  | counted {n : Nat} (h : explicitLimit d st = .rows n)
  | appended (h : explicitLimit d st = .absent) (hfit : standsBeforeLimit d st = true)
  | wrapped {q : Query} (h : explicitLimit d st = .unbounded)
      (hfit : standsInParentheses d st = true) (hq : parse d st = .ok [.query q])
      (hnested : nestedQuery? d st = some q)

namespace Gate

variable {g : Gate} {allowed : AllowList} {maxRows : Nat} {sql st out : List Char}

/-- The text that a gate caps a statement to. -/
def capped (g : Gate) (maxRows : Nat) (st : List Char) : List Char :=
  (g.capRows (max 1 maxRows) st).value

/-- The count that a statement carries is a count among its tokens. -/
theorem exists_findCap_of_limit {n : Nat} (hready : Ready st) {ts : List Token}
    (hts : tokens g.dialect st = .ok ts) (h : explicitLimit g.dialect st = .rows n) :
    ∃ position, findCap g.dialect ts = .rows n position :=
  exists_rows_of_limit ((explicitLimit_of_ready hready hts).symm.trans h)

/-- A statement with a count parses as before when it is capped. -/
theorem parse_capped_of_rows {n : Nat} (hready : Ready st) {ts : List Token}
    (hts : tokens g.dialect st = .ok ts) (h : explicitLimit g.dialect st = .rows n)
    (hm : maxRows < Text.countBound) :
    parse g.dialect (g.capped maxRows st) = parse g.dialect st := by
  obtain ⟨position, hcap⟩ := exists_findCap_of_limit hready hts h
  have hone : 1 < Text.countBound := by decide
  exact RowLimit.parse_enforce_of_rows _ hready hts hcap (by omega)

/-- A statement without a limit is the same query when it is capped, if a limit may follow it. -/
theorem query_capped_of_absent {q q' : Query} (hready : Ready st) {ts : List Token}
    (hts : tokens g.dialect st = .ok ts) (hstart : Rules.checkStart ts = .ok ())
    (h : explicitLimit g.dialect st = .absent) (hfit : standsBeforeLimit g.dialect st = true)
    (hq : parse g.dialect st = .ok [.query q])
    (hq' : parse g.dialect (g.capped maxRows st) = .ok [.query q']) : q' = q := by
  rw [explicitLimit_of_ready hready hts, RowCap.limit_eq_absent_iff] at h
  have hout : g.capped maxRows st = RowLimit.append st _ (endsInLineComment ts) :=
    RowLimit.enforce_absent hready hts h
  rw [hout] at hq'
  exact parse_append hts hstart hfit hq hq'

/-- A statement with a limit that is no count is selected from when it is capped, if it may stand in
    parentheses. -/
theorem parse_capped_of_unbounded {q : Query} (hready : Ready st) {ts : List Token}
    (hts : tokens g.dialect st = .ok ts) (h : explicitLimit g.dialect st = .unbounded)
    (hfit : standsInParentheses g.dialect st = true) (hq : nestedQuery? g.dialect st = some q) :
    parse g.dialect (g.capped maxRows st) = .ok [.query q.derived] := by
  rw [explicitLimit_of_ready hready hts, RowCap.limit_eq_unbounded_iff] at h
  have hout : g.capped maxRows st = RowLimit.wrap st _ (endsInLineComment ts) :=
    RowLimit.enforce_unbounded hready hts h
  rw [hout]
  exact parse_wrap hts hfit hq

/-- No limit is in excess where limits are not rejected. -/
theorem excess?_eq_none (h : g.settings.limitPolicy ≠ .reject) : g.excess? maxRows st = none :=
  if_neg h

/-- **Round trip.** Where no further words are forbidden and limits are not rejected, a validated
    statement is prepared iff its capped text parses as one query of allowed tables; and a statement
    with a count is prepared. -/
theorem prepared_iff_of_validated (hextra : g.settings.extraKeywords = [])
    (hpolicy : g.settings.limitPolicy ≠ .reject) (hm : maxRows < Text.countBound)
    (h : (g.validate allowed sql).value = .accepted st) :
    (∀ n, explicitLimit g.dialect st = .rows n →
      (g.prepareWithin allowed maxRows sql).value = .accepted (g.capped maxRows st)) ∧
    ((∃ out, (g.prepareWithin allowed maxRows sql).value = .accepted out) ↔
      ∃ q, parse g.dialect (g.capped maxRows st) = .ok [.query q] ∧
        ∀ n ∈ (Statement.query q).tables,
          allowed.resolves n g.settings.defaultSchema = true) := by
  have hcheck := (g.validate_eq_accepted_iff _ _ _).mp h
  have hready := Rules.ready_of_check hcheck
  obtain ⟨-, hmeets⟩ := (g.rules.check_eq_ok_iff _ _ _).mp hcheck
  obtain ⟨ts, hts, -⟩ := hmeets.readable
  have hverbs : g.rules.vocabulary.extraVerbs = [] := by
    show g.settings.extraKeywords.map Text.asciiLower = []
    rw [hextra, List.map_nil]
  -- the capped text meets the rules on the shape
  have hshape : g.rules.HasShape (g.capped maxRows st) :=
    RowLimit.enforce_shape g.settings.limitPolicy hverbs hready hmeets.toHasShape
  have hready' : Ready (g.capped maxRows st) :=
    RowLimit.enforce_ready _ _ _ hready hmeets.nonempty
  have hprepare : ∀ q, parse g.dialect (g.capped maxRows st) = .ok [.query q] →
      (∀ n ∈ (Statement.query q).tables, allowed.resolves n g.settings.defaultSchema = true) →
      (g.prepareWithin allowed maxRows sql).value = .accepted (g.capped maxRows st) := by
    intro q hparse htables
    refine (g.prepareWithin_eq_accepted_iff _ _ _ _).mpr
      ⟨st, hcheck, excess?_eq_none hpolicy, rfl, (g.rules.check_eq_ok_iff _ _ _).mpr ?_⟩
    exact ⟨(Rules.normalized_of_ready hready').symm, hshape, hmeets.allows, q, hparse, htables⟩
  refine ⟨fun n hn => ?_, fun ⟨out, hout⟩ => ?_, fun ⟨q, hparse, htables⟩ =>
    ⟨_, hprepare q hparse htables⟩⟩
  · obtain ⟨q, hparse, htables⟩ := hmeets.query
    exact hprepare q ((parse_capped_of_rows hready hts hn hm).trans hparse) htables
  · obtain ⟨st', hcheck', -, rfl, hout⟩ := (g.prepareWithin_eq_accepted_iff _ _ _ _).mp hout
    rw [hcheck] at hcheck'
    cases hcheck'
    exact ((g.rules.check_eq_ok_iff _ _ _).mp hout).2.query

/-- **Tables.** What is prepared and what is validated are one query each.  With a count they are the
    same query, and so they are without a limit, if the lexemes may stand before one; with a limit
    that is no count the one selects from the other, if that may stand in parentheses.  The tables
    that a transparent statement reads are the same then, in the same order. -/
theorem tables_of_prepared (hm : maxRows < Text.countBound)
    (hvalidate : (g.validate allowed sql).value = .accepted st)
    (hprepare : (g.prepareWithin allowed maxRows sql).value = .accepted out) :
    ∃ q q', parse g.dialect st = .ok [.query q] ∧ parse g.dialect out = .ok [.query q'] ∧
      (∀ n, explicitLimit g.dialect st = .rows n → q' = q) ∧
      (explicitLimit g.dialect st = .absent → standsBeforeLimit g.dialect st = true → q' = q) ∧
      (explicitLimit g.dialect st = .unbounded → standsInParentheses g.dialect st = true →
        nestedQuery? g.dialect st = some q → q' = q.derived) ∧
      (Transparent g.dialect st →
        referencedTables g.dialect out = referencedTables g.dialect st) := by
  have hcheck := (g.validate_eq_accepted_iff _ _ _).mp hvalidate
  have hready := Rules.ready_of_check hcheck
  obtain ⟨-, hmeets⟩ := (g.rules.check_eq_ok_iff _ _ _).mp hcheck
  obtain ⟨ts, hts, hstart, -⟩ := hmeets.readable
  obtain ⟨q, hparse, -⟩ := hmeets.query
  obtain ⟨st', hcheck', -, rfl, hout⟩ := (g.prepareWithin_eq_accepted_iff _ _ _ _).mp hprepare
  rw [hcheck] at hcheck'
  cases hcheck'
  obtain ⟨q', hparse', -⟩ := ((g.rules.check_eq_ok_iff _ _ _).mp hout).2.query
  -- a count of its own stays in the text, or is replaced by another
  have hrows : ∀ n, explicitLimit g.dialect st = .rows n → q' = q := by
    intro n hn
    have hsame := (parse_capped_of_rows hready hts hn hm).trans hparse
    cases hsame.symm.trans hparse'
    rfl
  have habsent : explicitLimit g.dialect st = .absent → standsBeforeLimit g.dialect st = true →
      q' = q :=
    fun h hfit => query_capped_of_absent hready hts hstart h hfit hparse hparse'
  have hunbounded : explicitLimit g.dialect st = .unbounded →
      standsInParentheses g.dialect st = true → nestedQuery? g.dialect st = some q →
        q' = q.derived := by
    intro h hfit hq
    cases (parse_capped_of_unbounded hready hts h hfit hq).symm.trans hparse'
    rfl
  refine ⟨q, q', hparse, hparse', hrows, habsent, hunbounded, fun h => ?_⟩
  refine (referencedTables_of_query hparse').trans ?_
  refine Eq.trans ?_ (referencedTables_of_query hparse).symm
  -- in each of the three cases the query of the output is known
  cases h with
  | counted h => rw [hrows _ h]
  | appended h hfit => rw [habsent h hfit]
  | wrapped h hfit hq hnested =>
    cases hq.symm.trans hparse
    rw [hunbounded h hfit hnested, q.derived_tables]

end Gate

/-! ### A query with a limit behind it -/

/-- A query without a limit. -/
def plainText : List Char := "select * from t".toList

/-- `plainText` with a limit behind it. -/
def plainCapped : List Char := "select * from t LIMIT 1000".toList

private theorem plainText_decided :
    (strictGate.validate onlyT plainText).value = .accepted plainText ∧
      (strictGate.prepareWithin onlyT 1000 plainText).value = .accepted plainCapped ∧
      explicitLimit .postgresql plainText = .absent ∧
      standsBeforeLimit .postgresql plainText = true := by decide +kernel

/-- What is said of preparing that query. -/
theorem plainText_prepared_iff :
    (strictGate.validate onlyT plainText).value = .accepted plainText ∧
    (∀ n, explicitLimit strictGate.dialect plainText = .rows n →
      (strictGate.prepareWithin onlyT 1000 plainText).value
        = .accepted (strictGate.capped 1000 plainText)) ∧
    ((∃ out, (strictGate.prepareWithin onlyT 1000 plainText).value = .accepted out) ↔
      ∃ q, parse strictGate.dialect (strictGate.capped 1000 plainText) = .ok [.query q] ∧
        ∀ n ∈ (Statement.query q).tables,
          onlyT.resolves n strictGate.settings.defaultSchema = true) :=
  ⟨plainText_decided.1,
    Gate.prepared_iff_of_validated rfl (by decide) (by decide) plainText_decided.1⟩

/-- A query with a limit that is no count. -/
def allText : List Char := "select * from t limit all".toList

/-- `allText` as a derived table. -/
def allCapped : List Char := "SELECT * FROM (select * from t limit all) AS guarded_result LIMIT 1000".toList

/-- Whether a query reads all of a table and does nothing else. -/
def selectsAll (name : Name) : Query → Bool
  | .mk false [] (.select none [.relation n]) [] [] => n == name
  | _ => false

/-- The test for a selection of everything finds that selection only. -/
theorem eq_selection_of_selectsAll {name : Name} {q : Query} (h : selectsAll name q = true) :
    q = Parser.selection name := by
  unfold selectsAll at h
  split at h
  · rw [eq_of_beq h]
    rfl
  · cases h

private theorem allText_decided :
    (strictGate.validate onlyT allText).value = .accepted allText ∧
      (strictGate.prepareWithin onlyT 1000 allText).value = .accepted allCapped ∧
      explicitLimit .postgresql allText = .unbounded ∧
      standsInParentheses .postgresql allText = true ∧
      (query? .postgresql allText).any (selectsAll [⟨"t", none⟩]) = true ∧
      (nestedQuery? .postgresql allText).any (selectsAll [⟨"t", none⟩]) = true := by decide +kernel

/-- The statement may be wrapped. -/
theorem allText_transparent : Transparent strictGate.dialect allText := by
  obtain ⟨-, -, hlimit, hfit, hquery, hnested⟩ := allText_decided
  obtain ⟨q, hparse, hq⟩ := exists_query hquery
  obtain ⟨q', hnested, hq'⟩ := (Option.any_eq_true _ _).mp hnested
  obtain rfl := eq_selection_of_selectsAll hq
  obtain rfl := eq_selection_of_selectsAll hq'
  exact .wrapped hlimit hfit hparse hnested

/-- What is said of the tables that the two read. -/
theorem plainText_tables :
    ((strictGate.validate onlyT plainText).value = .accepted plainText ∧
      (strictGate.prepareWithin onlyT 1000 plainText).value = .accepted plainCapped ∧
      Transparent strictGate.dialect plainText ∧
      referencedTables strictGate.dialect plainCapped
        = referencedTables strictGate.dialect plainText) ∧
    (strictGate.validate onlyT allText).value = .accepted allText ∧
      (strictGate.prepareWithin onlyT 1000 allText).value = .accepted allCapped ∧
      Transparent strictGate.dialect allText ∧
      referencedTables strictGate.dialect allCapped
        = referencedTables strictGate.dialect allText := by
  obtain ⟨hplain, hplain', habsent, hfit⟩ := plainText_decided
  obtain ⟨hall, hall', -⟩ := allText_decided
  have htransparent : Transparent strictGate.dialect plainText := .appended habsent hfit
  obtain ⟨-, -, -, -, -, -, -, htables⟩ := Gate.tables_of_prepared (by decide) hplain hplain'
  obtain ⟨-, -, -, -, -, -, -, htables'⟩ := Gate.tables_of_prepared (by decide) hall hall'
  exact ⟨⟨hplain, hplain', htransparent, htables htransparent⟩,
    hall, hall', allText_transparent, htables' allText_transparent⟩

/-! ### Limits that the grammar reads in another way -/

/-- A query that ends in a lock. -/
def shareText : List Char := "select * from t for share".toList

/-- The query is validated, and not prepared: no limit may stand behind a lock. -/
theorem shareText_validated_not_prepared :
    (strictGate.validate onlyT shareText).value = .accepted shareText ∧
      ¬∃ out, (strictGate.prepareWithin onlyT 1000 shareText).value = .accepted out := by
  have hdecided : (strictGate.validate onlyT shareText).value = .accepted shareText ∧
      (strictGate.prepareWithin onlyT 1000 shareText).value
        = .rejected (.malformed "sql parser error") := by decide +kernel
  refine ⟨hdecided.1, ?_⟩
  rintro ⟨out, hout⟩
  rw [hdecided.2] at hout
  cases hout

/-- The list that allows two tables with names of keywords. -/
def keywordTables : AllowList := ⟨[⟨["select"]⟩, ⟨["union"]⟩], none⟩

/-- A union of a column with a table, and a limit without a bound. -/
def joinText : List Char := "select join union table on limit".toList

/-- `joinText` as a derived table, where its first words are a join. -/
def joinCapped : List Char :=
  "SELECT * FROM (select join union table on limit) AS guarded_result LIMIT 1000".toList

/-- Validated and prepared, the query reads no table and two. -/
theorem joinText_tables_ne :
    (strictGate.validate keywordTables joinText).value = .accepted joinText ∧
      (strictGate.prepareWithin keywordTables 1000 joinText).value = .accepted joinCapped ∧
      referencedTables .postgresql joinText = .ok [] ∧
      referencedTables .postgresql joinCapped = .ok [⟨["select"]⟩, ⟨["union"]⟩] := by
  decide +kernel

end QueryGate
