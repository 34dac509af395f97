import QueryGate.Sql.Parser

namespace QueryGate.Sql.Parser

/-!
# Steps of a parser

What a parser does at a given place, from what its parts do there.  A test of the next lexeme that
fails takes nothing.

* `bind_of_ok` — a parser goes on from what the parser before it leaves;
* `keyword_of_head`, `keywordOf?_of_head`, `symbol_of_head` — tests that fail.
-/

variable {α β : Type} {env : Env} {ls : List Lexeme}

/-- A parser goes on from what the parser before it leaves. -/
theorem bind_of_ok {p : Parser α} {f : α → Parser β} {r : List Lexeme} {a : α}
    (h : p env ls = .ok (a, r)) : (p >>= f) env ls = f a env r := by
  show (p env ls >>= fun r => f r.1 env r.2) = _
  rw [h]
  rfl

/-- A parser fails where the parser before it does. -/
theorem bind_of_error {p : Parser α} {f : α → Parser β} {e : Halt} (h : p env ls = .error e) :
    (p >>= f) env ls = .error e := by
  show (p env ls >>= fun r => f r.1 env r.2) = _
  rw [h]
  rfl

/-- Where a parser comes to a result, the parser before it does. -/
theorem of_bind_ok {p : Parser α} {f : α → Parser β} {b : β} {rest : List Lexeme}
    (h : (p >>= f) env ls = .ok (b, rest)) :
    ∃ a ms, p env ls = .ok (a, ms) ∧ f a env ms = .ok (b, rest) := by
  cases hp : p env ls with
  | error e =>
    rw [bind_of_error hp] at h
    cases h
  | ok r => exact ⟨r.1, r.2, rfl, by rwa [bind_of_ok hp] at h⟩

theorem map_of_ok {p : Parser α} {f : α → β} {r : List Lexeme} {a : α}
    (h : p env ls = .ok (a, r)) : (f <$> p) env ls = .ok (f a, r) := by
  rw [map_eq_pure_bind, bind_of_ok h]
  rfl

/-- A keyword that does not come next is not taken. -/
theorem keyword_of_head {k : String} (h : ∀ l ∈ ls.head?, l.keyword ≠ k) :
    keyword k env ls = .ok (false, ls) := by
  cases ls with
  | nil => rfl
  | cons l ls =>
    rw [keyword, bind_of_ok (a := l :: ls) (r := l :: ls) rfl]
    dsimp only
    rw [if_neg (by simpa using h l rfl)]
    rfl

/-- Another word is left. -/
theorem keyword_of_ne {k : String} {l : Lexeme} (h : l.keyword ≠ k) :
    keyword k env (l :: ls) = .ok (false, l :: ls) :=
  keyword_of_head fun m hm => by
    cases hm
    exact h

/-- Where none of the words stands nothing is taken. -/
theorem keywordOf?_of_head {ks : List String} (h : ∀ l ∈ ls.head?, l.keyword ∉ ks) :
    keywordOf? ks env ls = .ok (none, ls) := by
  cases ls with
  | nil => rfl
  | cons l ls =>
    rw [keywordOf?, bind_of_ok (a := l :: ls) (r := l :: ls) rfl]
    dsimp only
    rw [if_neg (by simpa using h l rfl)]
    rfl

/-- Where the symbol does not stand nothing is taken. -/
theorem symbol_of_head {s : String} (h : ∀ l ∈ ls.head?, l.token ≠ .symbol s) :
    symbol s env ls = .ok (false, ls) := by
  cases ls with
  | nil => rfl
  | cons l ls =>
    rw [symbol, bind_of_ok (a := l :: ls) (r := l :: ls) rfl]
    dsimp only
    rw [if_neg (by simpa using h l rfl)]
    rfl

/-- A look at the next lexeme in one dialect. -/
theorem both_isDialect_atSymbol (d : Dialect) (s : String) :
    both (isDialect d) (atSymbol s) env ls
      = .ok (env.dialect == d && ls.head?.any (·.token == .symbol s), ls) := by
  have hdialect : isDialect d env ls = .ok (env.dialect == d, ls) := rfl
  rw [both, bind_of_ok hdialect]
  cases env.dialect == d <;> rfl

end QueryGate.Sql.Parser
