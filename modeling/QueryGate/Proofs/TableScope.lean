import QueryGate.Proofs.Acceptance
import QueryGate.Proofs.LexicalScope

namespace QueryGate

open Sql

/-!
# What an accepted query reads

The rules look up the tables of `Statement.tables`, which are the items of `FROM` and `JOIN` that
no visible common table expression hides.  So what an accepted query reads is settled up to two
kinds of places:

* `TABLE name` in the place of a body is no item of `FROM`, and is not looked up;
* a common table expression hides a name that equals its own in lower case, also where quotes
  make the two different identifiers.

Main results:

* `Gate.accepted_permitted_iff` — all tables that an accepted query names are permitted iff those
  named by `TABLE` are;
* `Gate.accepted_stored_iff` — all stored tables that an accepted query reads are allowed iff those
  are that share their lower case with a visible expression.
-/

/-! ### Permitted uses -/

/-- A statement reads the names that its uses read. -/
theorem Sql.Statement.mem_tables_iff (s : Statement) (n : TableName) :
    n ∈ s.tables ↔ ∃ u ∈ s.uses, u.read? = some n := by
  rw [Statement.tables, firstOccurrences_eq_eraseDups, s.walk_tables, List.mem_eraseDups, readTables,
    List.mem_filterMap]

namespace TableUse

/-- A table that may be named where it is named: it is allowed, or a visible common table
    expression hides it. -/
def Permitted (allowed : AllowList) (fallback : Option String) (u : TableUse) : Prop :=
  allowed.resolves u.ref.name fallback = true ∨ u.isHidden = true

end TableUse

/-- The rules permit every item of `FROM` and `JOIN`. -/
theorem Rules.Meets.relation_permitted {r : Rules} {allowed : AllowList} {st : List Char}
    (h : r.Meets allowed st) :
    ∃ q, parse r.vocabulary.dialect st = .ok [.query q] ∧
      ∀ u ∈ q.uses [], u.ref.isRelation = true → u.Permitted allowed r.defaultSchema := by
  obtain ⟨q, hparse, htables⟩ := h.query
  refine ⟨q, hparse, fun u hu hrel => ?_⟩
  cases hhidden : u.isHidden with
  | true => exact .inr hhidden
  | false =>
    have hread : u.read? = some u.ref.name := (u.read?_eq_some_iff _).mpr ⟨hrel, hhidden, rfl⟩
    exact .inl (htables _ (((Statement.query q).mem_tables_iff _).mpr ⟨u, hu, hread⟩))

namespace Gate

variable {g : Gate} {allowed : AllowList} {sql out : List Char} (maxRows : Nat)

/-- An accepted text meets the rules, whichever way it was accepted. -/
theorem meets_of_accepted (h : (g.validate allowed sql).value = .accepted out ∨
    (g.prepareWithin allowed maxRows sql).value = .accepted out) :
    g.rules.Meets allowed out := by
  rcases h with h | h
  · exact ((g.rules.check_eq_ok_iff _ _ _).mp ((g.validate_eq_accepted_iff _ _ _).mp h)).2
  · obtain ⟨_, _, _, _, hout⟩ := (g.prepareWithin_eq_accepted_iff _ _ _ _).mp h
    exact ((g.rules.check_eq_ok_iff _ _ _).mp hout).2

/-- **Table scope.** An accepted text is one query.  Every table that it names in `FROM` or `JOIN`
    is allowed, or hidden by a visible common table expression; and the same holds of every table
    that it names anywhere iff it holds of those that `TABLE` names in the place of a body. -/
theorem accepted_permitted_iff (h : (g.validate allowed sql).value = .accepted out ∨
    (g.prepareWithin allowed maxRows sql).value = .accepted out) :
    ∃ q, parse g.dialect out = .ok [.query q] ∧
      (∀ u ∈ q.uses [], u.ref.isRelation = true → u.Permitted allowed g.settings.defaultSchema) ∧
      ((∀ u ∈ q.uses [], u.Permitted allowed g.settings.defaultSchema) ↔
        ∀ u ∈ q.uses [], u.ref.isRelation = false →
          u.Permitted allowed g.settings.defaultSchema) := by
  obtain ⟨q, hparse, hrelation⟩ := (meets_of_accepted maxRows h).relation_permitted
  refine ⟨q, hparse, hrelation, fun hall u hu _ => hall u hu, fun hwhole u hu => ?_⟩
  cases hrel : u.ref.isRelation with
  | true => exact hrelation u hu hrel
  | false => exact hwhole u hu hrel

end Gate

/-! ### A body that is a table -/

/-- A union with a table that is not allowed. -/
def wholeText : List Char := "select 1 union table s".toList

/-- What `wholeText` parses as. -/
def wholeQuery : Query :=
  .mk false [] (.combined (.select none []) (.table none "s")) [] []

/-- A `TABLE` body reads a table that the gate does not see. -/
private theorem validate_wholeText :
    (strictGate.validate onlyT wholeText).value = .accepted wholeText ∧
      parse .postgresql wholeText = .ok [.query wholeQuery] := by
  have hts : tokens .postgresql wholeText = .ok [.word "select" none, .blank .space,
      .number "1" false, .blank .space, .word "union" none, .blank .space, .word "table" none,
      .blank .space, .word "s" none] := by cbv
  refine ⟨by decide +kernel, (parse_eq_ok_iff hts _).mpr ?_⟩
  cbv

/-- The union is accepted, and names a table that is neither allowed nor hidden. -/
theorem wholeText_accepted_not_permitted :
    (strictGate.validate onlyT wholeText).value = .accepted wholeText ∧
      parse .postgresql wholeText = .ok [.query wholeQuery] ∧
      ∃ u ∈ wholeQuery.uses [], ¬u.Permitted onlyT strictGate.settings.defaultSchema := by
  obtain ⟨haccepted, hparse⟩ := validate_wholeText
  have huses : wholeQuery.uses [] = [⟨[], .whole none "s"⟩] := by cbv
  refine ⟨haccepted, hparse, ⟨[], .whole none "s"⟩, by rw [huses]; simp, ?_⟩
  rintro (h | h)
  · exact absurd h (by decide)
  · exact absurd h (by decide)

/-- The table scope of the union. -/
theorem wholeText_permitted_iff :
    (strictGate.validate onlyT wholeText).value = .accepted wholeText ∧
    ∃ q, parse strictGate.dialect wholeText = .ok [.query q] ∧
      (∀ u ∈ q.uses [], u.ref.isRelation = true →
        u.Permitted onlyT strictGate.settings.defaultSchema) ∧
      ((∀ u ∈ q.uses [], u.Permitted onlyT strictGate.settings.defaultSchema) ↔
        ∀ u ∈ q.uses [], u.ref.isRelation = false →
          u.Permitted onlyT strictGate.settings.defaultSchema) :=
  ⟨validate_wholeText.1,
    Gate.accepted_permitted_iff 1 (.inl validate_wholeText.1)⟩

/-! ### Stored tables -/

/-- What identifiers are compared by where quotes keep a spelling: the text of a quoted one, and
    the folded text of any other. -/
def Sql.Ident.identity (fold : String → String) (i : Ident) : String :=
  if i.quote.isSome then i.text else fold i.text

namespace TableUse

/-- An item of `FROM` with one part that no visible common table expression has the identity of:
    a stored table is read there. -/
def Stored (fold : String → String) (u : TableUse) : Prop :=
  ∃ i, u.ref = .relation [i] ∧ ∀ c ∈ u.scope, c.identity fold ≠ i.identity fold

/-- An item of `FROM` with one part that shares its lower case with a visible common table
    expression. -/
def SharesLower (u : TableUse) : Prop :=
  ∃ i, u.ref = .relation [i] ∧ ∃ c ∈ u.scope, Text.lower c.text = Text.lower i.text

/-- An item with one part is hidden iff it shares its lower case. -/
theorem isHidden_iff_sharesLower {u : TableUse} {i : Ident} (h : u.ref = .relation [i]) :
    u.isHidden = true ↔ u.SharesLower := by
  have hname : u.ref.name = ⟨[Text.lower i.text]⟩ := by rw [h]; rfl
  have hhidden : u.isHidden = boundIn u.scope (Text.lower i.text) := by
    rw [isHidden, hname]; rfl
  rw [hhidden, boundIn_iff]
  constructor
  · exact fun hc => ⟨i, h, hc⟩
  · rintro ⟨j, hj, hc⟩
    rw [h] at hj
    cases hj
    exact hc

end TableUse

/-- **Stored tables.** In an accepted query every stored table is allowed, unless it shares its
    lower case with a visible common table expression; so all stored tables are allowed iff those
    that share it are.  This holds however unquoted identifiers are folded. -/
theorem Gate.accepted_stored_iff (fold : String → String) {g : Gate} {allowed : AllowList}
    {sql out : List Char} (h : (g.validate allowed sql).value = .accepted out) :
    ∃ q, parse g.dialect out = .ok [.query q] ∧
      (∀ u ∈ q.uses [], u.Stored fold → ¬u.SharesLower →
        allowed.resolves u.ref.name g.settings.defaultSchema = true) ∧
      ((∀ u ∈ q.uses [], u.Stored fold →
          allowed.resolves u.ref.name g.settings.defaultSchema = true) ↔
        ∀ u ∈ q.uses [], u.Stored fold → u.SharesLower →
          allowed.resolves u.ref.name g.settings.defaultSchema = true) := by
  obtain ⟨q, hparse, hrelation⟩ := (meets_of_accepted 1 (.inl h)).relation_permitted
  have hclear : ∀ u ∈ q.uses [], u.Stored fold → ¬u.SharesLower →
      allowed.resolves u.ref.name g.settings.defaultSchema = true := by
    rintro u hu ⟨i, hi, -⟩ hshares
    -- the use is allowed, or the gate takes it for a name in scope
    rcases hrelation u hu (by rw [hi]; rfl) with hallowed | hhidden
    · exact hallowed
    · exact absurd ((TableUse.isHidden_iff_sharesLower hi).mp hhidden) hshares
  refine ⟨q, hparse, hclear, fun hall u hu hs _ => hall u hu hs, fun hshared u hu hs => ?_⟩
  by_cases hshares : u.SharesLower
  · exact hshared u hu hs hshares
  · exact hclear u hu hs hshares

/-- A query of a stored table `s` beside an expression that quotes keep apart from it. -/
def quotedText : List Char := "with \"S\" as (select 1) select from s".toList

/-- What `quotedText` parses as. -/
def quotedQuery : Query :=
  .mk false [.mk ⟨"S", some '"'⟩ (.mk false [] (.select none []) [] [])]
    (.select none [.relation [⟨"s", none⟩]]) [] []

/-- The quoted name hides a reference that is spelled in another case. -/
private theorem validate_quotedText :
    (strictGate.validate onlyT quotedText).value = .accepted quotedText ∧
      parse .postgresql quotedText = .ok [.query quotedQuery] := by
  have hts : tokens .postgresql quotedText = .ok [.word "with" none, .blank .space,
      .word "S" (some '"'), .blank .space, .word "as" none, .blank .space, .symbol "(",
      .word "select" none, .blank .space, .number "1" false, .symbol ")", .blank .space,
      .word "select" none, .blank .space, .word "from" none, .blank .space, .word "s" none] := by
    cbv
  refine ⟨by decide +kernel, (parse_eq_ok_iff hts _).mpr ?_⟩
  cbv

/-- The query is accepted, and reads a stored table that is not allowed. -/
theorem quotedText_accepted_not_allowed :
    (strictGate.validate onlyT quotedText).value = .accepted quotedText ∧
      parse .postgresql quotedText = .ok [.query quotedQuery] ∧
      ∃ u ∈ quotedQuery.uses [], u.Stored Text.asciiLower ∧
        onlyT.resolves u.ref.name strictGate.settings.defaultSchema = false := by
  obtain ⟨haccepted, hparse⟩ := validate_quotedText
  have huses : quotedQuery.uses [] = [⟨[⟨"S", some '"'⟩], .relation [⟨"s", none⟩]⟩] := by cbv
  refine ⟨haccepted, hparse, ⟨[⟨"S", some '"'⟩], .relation [⟨"s", none⟩]⟩, by rw [huses]; simp, ?_⟩
  exact ⟨⟨⟨"s", none⟩, rfl, by decide⟩, by decide⟩

/-- The stored tables of that query. -/
theorem quotedText_stored_iff :
    (strictGate.validate onlyT quotedText).value = .accepted quotedText ∧
    ∃ q, parse strictGate.dialect quotedText = .ok [.query q] ∧
      (∀ u ∈ q.uses [], u.Stored Text.asciiLower → ¬u.SharesLower →
        onlyT.resolves u.ref.name strictGate.settings.defaultSchema = true) ∧
      ((∀ u ∈ q.uses [], u.Stored Text.asciiLower →
          onlyT.resolves u.ref.name strictGate.settings.defaultSchema = true) ↔
        ∀ u ∈ q.uses [], u.Stored Text.asciiLower → u.SharesLower →
          onlyT.resolves u.ref.name strictGate.settings.defaultSchema = true) :=
  ⟨validate_quotedText.1, Gate.accepted_stored_iff Text.asciiLower validate_quotedText.1⟩

end QueryGate
