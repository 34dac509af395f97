import QueryGate.Proofs.Extension.Changes

namespace QueryGate.Sql.Parser

/-!
# A limit behind a query

Up to the place of its own limit a query is read in the same way, with another limit behind it and
without.  If there is nothing left at that place, the limit is taken there, and adds no query to
what is read; else the clauses go on in the same way.  So where both texts have a reading, it is the
same query.

* `queryHere_limit` — the query, with a limit behind it and without;
* `parseTokens_limit` — the same for the tokens of a statement.
-/

variable {α β : Type} {κ : Tail} {zs zs' : List Lexeme} {d : Dialect} {env : Env}

/-! ### The same result -/

/-- Where both come to a result, it is the same. -/
def SameResult (x y : Except Halt (α × List Lexeme)) : Prop :=
  ∀ ⦃a b ls ms⦄, x = .ok (a, ls) → y = .ok (b, ms) → b = a

namespace SameResult

theorem refl (x : Except Halt (α × List Lexeme)) : SameResult x x := fun _ _ _ _ hx hy =>
  (Prod.mk.inj (Except.ok.inj (hx.symm.trans hy))).1.symm

end SameResult

namespace Agree

variable {R : α → List Lexeme → Prop} {x y : Except Halt (α × List Lexeme)}

/-- Readings that agree have the same result where they end inside. -/
theorem sameResult (h : Agree κ zs zs' R x y) : SameResult x y := by
  intro a b ls ms hx hy
  subst hx hy
  exact h.1

end Agree

/-- What goes on from the same result to the same result. -/
theorem Keeps.bind_sameResult {p q : Parser α} {f g : α → Parser β} {is : List Lexeme}
    (hp : Keeps κ 0 is.length p q) (henv : env.Steady) (ht : Tails κ zs zs') (hi : Fit κ.ended is)
    (hf : ∀ a {js}, Fit κ.ended js → SameResult (f a env (js ++ zs)) (g a env (js ++ zs'))) :
    SameResult ((p >>= f) env (is ++ zs)) ((q >>= g) env (is ++ zs')) := by
  rcases (hp.runs henv ht hi (Nat.zero_le _) le_rfl).cases with
    ⟨e, hx, -⟩ | ⟨a, js, hx, hy, hjs, -⟩
  · rw [bind_of_error hx]
    exact fun _ _ _ _ h => by cases h
  · rw [bind_of_ok hx, bind_of_ok hy]
    exact hf a hjs

/-! ### The place of the limit -/

/-- An offset before the limit. -/
def offsetBefore : Parser (Option (List Query)) := do
  if ← keyword "OFFSET" then some <$> offsetValue else pure none

/-- The limit, and the offset behind it. -/
def limitBehind (offset : Option (List Query)) : Parser (List Query) := do
  if ← keyword "LIMIT" then
    let all ← keyword "ALL"
    let count ← if all then pure [] else exprQueries
    let commaFits := (← dialect).limitComma && offset.isNone && !all
    if ← both (return commaFits) (symbol ",") then return count ++ (← exprQueries)
    else match offset with
      | some offset => return count ++ offset
      | none => return count ++ (← clause "OFFSET" offsetValue)
  else return offset.getD []

/-- The limit clause in two steps: an `OFFSET` before the limit, and what is behind it. -/
theorem limitClause_eq : limitClause = offsetBefore >>= limitBehind := by
  rw [limitClause, offsetBefore, bind_assoc]
  refine bind_congr fun b => ?_
  cases b <;> rfl

/-- A limit that is a count is taken, and holds no query. -/
theorem limitBehind_limit (d : Dialect) (n : Nat) (offset : Option (List Query)) (attached : Bool)
    (count : String) :
    limitBehind offset (Parser.env d (n + 1)) (limit attached count) = .ok (offset.getD [], []) := by
  cases offset <;> cases d <;> rfl

/-- Without `LIMIT` there is the offset alone. -/
theorem limitBehind_of_head (offset : Option (List Query)) {ls : List Lexeme}
    (h : ∀ l ∈ ls.head?, l.keyword ≠ "LIMIT") :
    limitBehind offset env ls = .ok (offset.getD [], ls) := by
  rw [limitBehind, bind_of_ok (keyword_of_head h)]
  rfl

instance {N : Nat} [κ.Easy] : Keeps κ 0 N offsetBefore offsetBefore := by
  unfold offsetBefore
  infer_instance

/-! ### Queries -/

/-- A lexeme that may stand before a limit is no foreign word. -/
theorem Fit.head_not_foreign {l : Lexeme} {ls : List Lexeme} (h : Fit true (l :: ls)) :
    l.keyword ∉ foreignWords := by
  cases h with
  | cons hplain hleads => exact (hleads rfl).not_foreign
  | parens => simp

section

variable {js : List Lexeme} {attached : Bool} {count : String} {n : Nat}

/-- Nothing that a limit may stand behind is a change. -/
theorem changeVerb?_of_fit (hjs : Fit true js) (hzs : ∀ l ∈ zs.head?, ∃ a, l = limitWord a) :
    changeVerb? env (js ++ zs) = .ok (none, js ++ zs) := by
  refine bind_of_ok (f := verbChange?) (keywordOf?_of_head fun l hl hmem => ?_)
  cases js with
  | nil =>
    obtain ⟨a, rfl⟩ := hzs l hl
    simp at hmem
  | cons m ms =>
    cases hl
    have hforeign := hjs.head_not_foreign
    simp only [List.mem_cons, List.not_mem_nil, or_false] at hmem hforeign
    tauto

/-- **The place of the limit.** Either it is free, and takes the limit, or what stands there is no
    limit. -/
theorem sameResult_bodyQuery (hjs : Fit true js) (start : Bool × List Cte) :
    SameResult (bodyQuery start (Parser.env d (n + 1)) (js ++ []))
      (bodyQuery start (Parser.env d (n + 1)) (js ++ limit attached count)) := by
  have ht : Tails .lenient [] (limit attached count) := .lenient
  have henv := steady_env d (n + 1)
  have heq : bodyQuery start = queryBody >>= fun body =>
      clauseBy "ORDER" (commaLists orderItem) >>= fun order => offsetBefore >>= fun offset =>
        limitBehind offset >>= fun limit => queryEnd start body (order ++ limit) := by
    simp only [bodyQuery, limitClause_eq, bind_assoc]
  rw [heq]
  refine Keeps.bind_sameResult inferInstance henv ht hjs fun body _ hjs => ?_
  refine Keeps.bind_sameResult inferInstance henv ht hjs fun order _ hjs => ?_
  refine Keeps.bind_sameResult inferInstance henv ht hjs fun offset js hjs => ?_
  cases js with
  | nil =>
    -- both go on where nothing is left
    have hfree : limitBehind offset (Parser.env d (n + 1)) [] = .ok (offset.getD [], []) :=
      limitBehind_of_head offset nofun
    rw [List.nil_append, List.nil_append, bind_of_ok hfree, bind_of_ok (limitBehind_limit ..)]
    exact .refl _
  | cons l ls =>
    have hnone (zs) : limitBehind offset (Parser.env d (n + 1)) (l :: ls ++ zs)
        = .ok (offset.getD [], l :: ls ++ zs) := by
      refine limitBehind_of_head offset fun m hm hlimit => ?_
      cases hm
      exact hjs.head_not_foreign (by simp [hlimit])
    have hend : Keeps .lenient 0 (l :: ls).length (queryEnd start body (order ++ offset.getD []))
      (queryEnd start body (order ++ offset.getD [])) := inferInstance
    rw [bind_of_ok (hnone []), bind_of_ok (hnone (limit attached count))]
    exact (hend.runs henv ht hjs (Nat.zero_le _) le_rfl).sameResult

/-- A query with a limit behind it is the query without, where both can be read. -/
theorem queryHere_limit (hjs : Fit true js) :
    SameResult (queryHere (Parser.env d (n + 1)) js)
      (queryHere (Parser.env d (n + 1)) (js ++ limit attached count)) := by
  have ht : Tails .lenient [] (limit attached count) := .lenient
  suffices h : SameResult (queryHere (Parser.env d (n + 1)) (js ++ []))
      (queryHere (Parser.env d (n + 1)) (js ++ limit attached count)) by
    rwa [List.append_nil] at h
  rw [queryHere_eq]
  refine Keeps.bind_sameResult inferInstance (steady_env d (n + 1)) ht hjs fun start js hjs => ?_
  have hend : ∀ l ∈ ([] : List Lexeme).head?, ∃ a, l = limitWord a := by simp
  have hlimit : ∀ l ∈ (limit attached count).head?, ∃ a, l = limitWord a := by
    rintro l ⟨⟩
    exact ⟨attached, rfl⟩
  rw [bind_of_ok (changeVerb?_of_fit hjs hend), bind_of_ok (changeVerb?_of_fit hjs hlimit)]
  exact sameResult_bodyQuery hjs start

end

end QueryGate.Sql.Parser
