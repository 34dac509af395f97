import QueryGate.Proofs.Extension.Limits
import QueryGate.Proofs.Lexing.Rewritten

namespace QueryGate.Sql.Parser

/-!
# Statements with a limit behind them

From queries to the tokens of a text: what stands behind some tokens leaves their lexemes alone, and
a text that is one query is read by the parser of queries.

* `lexemes_append`, `lexemes_gap_append` — the lexemes of more tokens;
* `queryHere_of_parseTokens` — a text that is one query starts with it;
* `parseTokens_limit` — the query of a statement that a limit comes to stand behind.
-/

variable {d : Dialect} {ts : List Token} {q : Query}

/-! ### Lexemes of more tokens -/

/-- What stands behind some tokens does not change their lexemes. -/
theorem lexemes_append (attached : Bool) (ts : List Token) :
    ∃ a, ∀ us, lexemes attached (ts ++ us) = lexemes attached ts ++ lexemes a us := by
  induction ts generalizing attached with
  | nil => exact ⟨attached, fun _ => rfl⟩
  | cons t ts ih =>
    by_cases ht : t.isTrivia = true
    · obtain ⟨a, ha⟩ := ih false
      exact ⟨a, fun us => by simp [lexemes, ht, ha us]⟩
    · obtain ⟨a, ha⟩ := ih true
      exact ⟨a, fun us => by simp [lexemes, ht, ha us]⟩

/-- Blanks and comments leave no lexeme. -/
theorem lexemes_gap {gap : List Token} (h : ∀ t ∈ gap, t.isGap = true) (attached : Bool) :
    lexemes attached gap = [] := by
  induction gap generalizing attached with
  | nil => rfl
  | cons t gap ih =>
    obtain ⟨ht, hgap⟩ := List.forall_mem_cons.mp h
    rw [lexemes, if_pos (Token.isTrivia_of_isGap ht), ih hgap]

/-- Another gap behind some tokens is no lexeme. -/
theorem lexemes_gap_append (core : List Token) {gap gap' : List Token}
    (hgap : ∀ t ∈ gap, t.isGap = true)
    (hgap' : ∀ t ∈ gap', t.isGap = true) (attached : Bool) :
    ∃ a, ∀ us, lexemes attached (core ++ gap' ++ us) =
      lexemes attached (core ++ gap) ++ lexemes a us := by
  obtain ⟨a, ha⟩ := lexemes_append attached core
  obtain ⟨b, hb⟩ := lexemes_append a gap'
  refine ⟨b, fun us => ?_⟩
  rw [List.append_assoc, ha, hb, lexemes_gap hgap', ha, lexemes_gap hgap, List.append_nil,
    List.nil_append]

/-! ### The query of a statement -/

/-- A statement that is a query is read by the parser of queries. -/
theorem of_statement {env : Env} {ls rest : List Lexeme}
    (h : statement env ls = .ok (.query q, rest)) : query env ls = .ok (q, rest) := by
  obtain ⟨b, ms, hb, h⟩ := of_bind_ok h
  -- looking ahead takes nothing
  obtain rfl : ms = ls := by
    have hany : atAny ["SELECT", "WITH", "VALUES", "FROM"] env ls = .ok (_, ls) := rfl
    rw [either, bind_of_ok hany] at hb
    split at hb <;> (cases hb; rfl)
  cases b with
  | true =>
    obtain ⟨q', ms, hq, h⟩ := of_bind_ok h
    cases h
    exact hq
  | false =>
    obtain ⟨o, ms, -, h⟩ := of_bind_ok h
    cases o with
    | none => cases h
    | some kind =>
      obtain ⟨reads, ms, -, h⟩ := of_bind_ok h
      cases h

/-- Where no semicolon stands none is dropped. -/
theorem semicolons_of_head {env : Env} {ls : List Lexeme}
    (h : ∀ l ∈ ls.head?, l.token ≠ .symbol ";") : withFuel semicolons env ls = .ok ((), ls) := by
  rw [withFuel, bind_of_ok (a := ls) (r := ls) rfl, semicolons, bind_of_ok (symbol_of_head h)]
  rfl

/-- One statement at the front of a list. -/
theorem of_statementList {env : Env} {ls rest : List Lexeme} {s : Statement} {n : Nat}
    (hhead : ∀ l ∈ ls.head?, l.token ≠ .symbol ";")
    (h : statementList (n + 1) env ls = .ok ([s], rest)) :
    ∃ rest, statement env ls = .ok (s, rest) := by
  rw [statementList, bind_of_ok (semicolons_of_head hhead),
    bind_of_ok (a := ls.head?) (r := ls) rfl] at h
  -- with nothing ahead the list would be empty
  split at h
  · cases h
  obtain ⟨t, ms, ht, h⟩ := of_bind_ok h
  -- whether `END` or the end follows, the one statement is read before it
  obtain ⟨b, ms', -, h⟩ := of_bind_ok h
  split at h
  · cases h
    exact ⟨ms, ht⟩
  · obtain ⟨b, ms', -, h⟩ := of_bind_ok h
    obtain ⟨-, ms', -, h⟩ := of_bind_ok h
    obtain ⟨ss, ms', -, h⟩ := of_bind_ok h
    cases h
    exact ⟨ms, ht⟩

/-- A text that is one query starts with it. -/
theorem queryHere_of_parseTokens (hhead : ∀ l ∈ (lexemes false ts).head?, l.token ≠ .symbol ";")
    (h : parseTokens d ts = .ok [.query q]) :
    ∃ rest, queryHere (env d (levels - 2)) (lexemes false ts) = .ok (q, rest) := by
  cases hlist : withFuel statementList (env d (levels - 1)) (lexemes false ts) with
  | error e =>
    rw [parseTokens, hlist] at h
    cases h
  | ok r =>
    obtain ⟨ss, rest⟩ := r
    rw [parseTokens, hlist] at h
    obtain rfl : ss = [.query q] := Except.ok.inj h
    obtain ⟨rest, hstatement⟩ := of_statementList hhead hlist
    exact ⟨rest, of_statement hstatement⟩

/-- **Limits.** A statement with a limit behind it is the query that it is without, if its lexemes
    may stand before a limit. -/
theorem parseTokens_limit {us : List Token} {attached : Bool} {count : String} {q' : Query}
    (hfit : Fit true (lexemes false ts))
    (hhead : ∀ l ∈ (lexemes false ts).head?, l.token ≠ .symbol ";")
    (hus : lexemes false us = lexemes false ts ++ limit attached count)
    (h : parseTokens d ts = .ok [.query q]) (h' : parseTokens d us = .ok [.query q']) : q' = q := by
  have hhead' : ∀ l ∈ (lexemes false us).head?, l.token ≠ .symbol ";" := by
    intro l hl
    rw [hus, List.head?_append] at hl
    rcases Option.or_eq_some_iff.mp hl with hl | ⟨-, hl⟩
    · exact hhead l hl
    · cases hl
      exact nofun
  obtain ⟨rest, hq⟩ := queryHere_of_parseTokens hhead h
  obtain ⟨rest', hq'⟩ := queryHere_of_parseTokens hhead' h'
  rw [hus] at hq'
  exact queryHere_limit hfit hq hq'

end QueryGate.Sql.Parser
