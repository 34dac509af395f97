import QueryGate.Proofs.CapSearch

namespace QueryGate

open Sql

/-!
# The grammar of row limits

Which texts carry a row limit, and which one, is said here without a search and without places:

* `LimitStart` — the first `LIMIT` or `FETCH` among tokens that no parenthesis encloses;
* `LimitForm` / `FetchForm` — what stands behind it, and the count that it spells;
* `limitOperand_eq_rows_iff` / `fetchOperand_eq_rows_iff` — the operands that are read as a count
  are those of these forms;
* `clauseFrom_eq_none` / `LimitStart.clauseFrom_eq` — where the search stops;
* `explicitLimit_grammar` — the limit of a text is the one of its grammar.
-/

/-! ### The grammar -/

/-- An unquoted `LIMIT` or `FETCH` in any case. -/
def StartsLimit (t : Token) : Prop := t.isKeyword "limit" = true ∨ t.isKeyword "fetch" = true

/-- The first `LIMIT` or `FETCH` outside parentheses, and the tokens around it. -/
structure LimitStart (ts before : List Token) (t : Token) (after : List Token) : Prop where
  split : ts = before ++ t :: after
  starts : StartsLimit t
  outside : nesting 0 before = 0
  first : ∀ front u back, before = front ++ u :: back → nesting 0 front = 0 → ¬StartsLimit u

/-- Without blanks and comments, a count alone, a count before `OFFSET`, or, where the dialect has
    that form, the second one of two counts with a comma. -/
inductive LimitForm (d : Dialect) : List Token → Nat → Prop
  | alone {text : String} {long : Bool} {n : Nat} : Text.readCount? text = some n →
      LimitForm d [.number text long] n
  | offset {text : String} {long : Bool} {n : Nat} {t : Token} {rest : List Token} :
      Text.readCount? text = some n → t.isKeyword "offset" = true →
      LimitForm d (.number text long :: t :: rest) n
  | comma {text text' : String} {long long' : Bool} {n m : Nat} : d = .mysql ∨ d = .sqlite →
      Text.readCount? text = some m → Text.readCount? text' = some n →
      LimitForm d [.number text long, .symbol ",", .number text' long'] n

/-- Without blanks and comments, `FIRST` or `NEXT`, a count or none for one row, `ROW` or `ROWS`, and
    `ONLY`. -/
inductive FetchForm : List Token → Nat → Prop
  | count {text : String} {long : Bool} {n : Nat} {first unit only : Token} {rest : List Token} :
      first.isKeyword "first" = true ∨ first.isKeyword "next" = true →
      Text.readCount? text = some n →
      unit.isKeyword "row" = true ∨ unit.isKeyword "rows" = true → only.isKeyword "only" = true →
      FetchForm (first :: .number text long :: unit :: only :: rest) n
  | single {first unit only : Token} {rest : List Token} :
      first.isKeyword "first" = true ∨ first.isKeyword "next" = true →
      unit.isKeyword "row" = true ∨ unit.isKeyword "rows" = true → only.isKeyword "only" = true →
      FetchForm (first :: unit :: only :: rest) 1

/-- The count that stands behind `LIMIT` or `FETCH`. -/
def LimitCount (d : Dialect) (t : Token) (operand : List Token) (n : Nat) : Prop :=
  (t.isKeyword "limit" = true ∧ LimitForm d operand n) ∨
    (t.isKeyword "fetch" = true ∧ FetchForm operand n)

/-- The tokens without blanks and comments. -/
def withoutTrivia (ts : List Token) : List Token := ts.filter fun t => !t.isTrivia

/-! ### Operands -/

variable {d : Dialect} {l : List (Token × Nat)} {n : Nat}

/-- MySQL and SQLite know the limit with a comma. -/
theorem limitComma_iff : d.limitComma = true ↔ d = .mysql ∨ d = .sqlite := by
  cases d <;> decide

/-- What is read as a count behind `LIMIT` has one of the forms. -/
theorem limitOperand_eq_rows_iff :
    (limitOperand d l).limit = .rows n ↔ LimitForm d (l.map Prod.fst) n := by
  constructor
  · intro h
    cases l with
    | nil => cases h
    | cons first rest =>
      obtain ⟨t, i⟩ := first
      cases t with
      | word _ _ | literal _ _ | placeholder _ | symbol _ | customOperator _ | blank _ => cases h
      | number text long =>
        cases hcount : Text.readCount? text with
        | none => simp [limitOperand, hcount, RowCap.limit] at h
        | some m =>
          cases rest with
          | nil =>
            simp only [limitOperand, hcount, RowCap.limit, ExplicitLimit.rows.injEq] at h
            exact h ▸ .alone hcount
          | cons second more =>
            obtain ⟨u, j⟩ := second
            -- two counts with a comma, one with an offset, or one alone
            by_cases hpair : u = .symbol "," ∧ ∃ second long' k, more = [(.number second long', k)]
            · obtain ⟨rfl, second, long', k, rfl⟩ := hpair
              simp only [limitOperand, hcount] at h
              split at h
              · next hcomma =>
                cases hsecond : Text.readCount? second with
                | none => simp [hsecond, RowCap.limit] at h
                | some n' =>
                  simp only [hsecond, RowCap.limit, ExplicitLimit.rows.injEq] at h
                  exact h ▸ .comma (limitComma_iff.mp hcomma) hcount hsecond
              · cases h
            · have hother : u = .symbol "," → ∀ second long k, more ≠ [(.number second long, k)] :=
                fun hu second long' k hmore => hpair ⟨hu, second, long', k, hmore⟩
              rw [limitOperand_more hcount hother] at h
              split at h
              · next hoffset =>
                cases h
                exact .offset hcount hoffset
              · cases h
  · intro h
    -- each form is one way through the reader
    generalize hl : l.map Prod.fst = operand at h
    cases h with
    | alone hcount =>
      obtain ⟨⟨_, i⟩, rfl, rfl⟩ := List.map_eq_singleton_iff.mp hl
      simp [limitOperand, hcount, RowCap.limit]
    | offset hcount hoffset =>
      obtain ⟨⟨_, i⟩, _, rfl, rfl, htail⟩ := List.map_eq_cons_iff.mp hl
      obtain ⟨⟨u, j⟩, more, rfl, rfl, -⟩ := List.map_eq_cons_iff.mp htail
      have hother : u = .symbol "," → ∀ second long k, more ≠ [(.number second long, k)] := by
        rintro rfl
        cases hoffset
      rw [limitOperand_more hcount hother, if_pos hoffset]
      rfl
    | comma hd hcount hcount' =>
      obtain ⟨⟨_, i⟩, _, rfl, rfl, htail⟩ := List.map_eq_cons_iff.mp hl
      obtain ⟨⟨_, j⟩, _, rfl, rfl, hlast⟩ := List.map_eq_cons_iff.mp htail
      obtain ⟨⟨_, k⟩, rfl, rfl⟩ := List.map_eq_singleton_iff.mp hlast
      simp [limitOperand, hcount, hcount', limitComma_iff.mpr hd, RowCap.limit]

/-- Two words behind a count of `FETCH`, or behind no count. -/
def UnitForm (ts : List Token) : Prop :=
  ∃ unit only rest, ts = unit :: only :: rest ∧
    (unit.isKeyword "row" = true ∨ unit.isKeyword "rows" = true) ∧ only.isKeyword "only" = true

/-- With these words a cap is left as it is. -/
theorem fetchUnit_of_form (cap : RowCap) (h : UnitForm (l.map Prod.fst)) : fetchUnit cap l = cap := by
  obtain ⟨unit, only, rest, hl, hunit, honly⟩ := h
  obtain ⟨⟨_, i⟩, _, rfl, rfl, htail⟩ := List.map_eq_cons_iff.mp hl
  obtain ⟨⟨_, j⟩, _, rfl, rfl, -⟩ := List.map_eq_cons_iff.mp htail
  rw [fetchUnit, if_pos]
  rw [Bool.and_eq_true, Bool.or_eq_true]
  exact ⟨hunit, honly⟩

/-- A cap that is left has these words behind it. -/
theorem form_of_fetchUnit {cap : RowCap} (h : (fetchUnit cap l).limit = .rows n) :
    cap.limit = .rows n ∧ UnitForm (l.map Prod.fst) := by
  match l with
  | [] => cases h
  | [_] => cases h
  | (unit, _) :: (only, _) :: rest =>
    rw [fetchUnit] at h
    split at h
    · next hwords =>
      rw [Bool.and_eq_true, Bool.or_eq_true] at hwords
      exact ⟨h, unit, only, _, rfl, hwords⟩
    · cases h

/-- What is read as a count behind `FETCH` has one of the forms. -/
theorem fetchOperand_eq_rows_iff :
    (fetchOperand l).limit = .rows n ↔ FetchForm (l.map Prod.fst) n := by
  constructor
  · intro h
    match l with
    | [] => cases h
    | (first, _) :: l =>
      rw [fetchOperand_cons] at h
      split at h
      · next hfirst =>
        rw [Bool.or_eq_true] at hfirst
        by_cases hnumber : ∃ text long i more, l = (.number text long, i) :: more
        · obtain ⟨text, long, i, more, rfl⟩ := hnumber
          cases hcount : Text.readCount? text with
          | some m =>
            simp only [fetchCount, hcount] at h
            obtain ⟨hm, unit, only, rest, hmore, hunit, honly⟩ := form_of_fetchUnit h
            cases hm
            rw [List.map_cons, List.map_cons, hmore]
            exact .count hfirst hcount hunit honly
          | none =>
            -- a number that is no count is no unit either
            simp only [fetchCount, hcount] at h
            obtain ⟨-, unit, only, rest, hmore, hunit, -⟩ := form_of_fetchUnit h
            obtain ⟨rfl, -⟩ := List.cons_eq_cons.mp hmore
            obtain hrow | hrow := hunit <;> cases hrow
        · rw [fetchCount_of_not_number fun text long i more hl =>
            hnumber ⟨text, long, i, more, hl⟩] at h
          obtain ⟨hone, unit, only, rest, hmore, hunit, honly⟩ := form_of_fetchUnit h
          cases hone
          rw [List.map_cons, hmore]
          exact .single hfirst hunit honly
      · cases h
  · intro h
    generalize hl : l.map Prod.fst = operand at h
    cases h with
    | count hfirst hcount hunit honly =>
      obtain ⟨⟨_, i⟩, _, rfl, rfl, htail⟩ := List.map_eq_cons_iff.mp hl
      obtain ⟨⟨_, j⟩, more, rfl, rfl, hmore⟩ := List.map_eq_cons_iff.mp htail
      rw [fetchOperand_cons, if_pos (by rwa [Bool.or_eq_true])]
      simp only [fetchCount, hcount]
      rw [fetchUnit_of_form _ ⟨_, _, _, hmore, hunit, honly⟩]
      rfl
    | single hfirst hunit honly =>
      obtain ⟨⟨_, i⟩, more, rfl, rfl, hmore⟩ := List.map_eq_cons_iff.mp hl
      have hnumber : ∀ text long j rest, more ≠ (.number text long, j) :: rest := by
        rintro text long j rest rfl
        obtain ⟨rfl, -⟩ := List.cons_eq_cons.mp hmore
        obtain hrow | hrow := hunit <;> cases hrow
      rw [fetchOperand_cons, if_pos (by rwa [Bool.or_eq_true]), fetchCount_of_not_number hnumber,
        fetchUnit_of_form _ ⟨_, _, _, hmore, hunit, honly⟩]
      rfl

/-! ### Where the search stops -/

/-- The words that begin a limit are significant. -/
theorem not_isTrivia_of_starts {t : Token} (h : StartsLimit t) : t.isTrivia = false := by
  cases t with
  | blank _ => obtain h | h := h <;> cases h
  | word _ _ | number _ _ | literal _ _ | placeholder _ | symbol _ | customOperator _ => rfl

/-- The keywords that one word spells are the same but for their case. -/
theorem asciiLower_eq_of_isKeyword {t : Token} {keyword keyword' : String}
    (h : t.isKeyword keyword = true) (h' : t.isKeyword keyword' = true) :
    Text.asciiLower keyword = Text.asciiLower keyword' := by
  unfold Token.isKeyword at h h'
  cases hword : t.bareWord? with
  | none =>
    rw [hword] at h
    cases h
  | some text =>
    rw [hword] at h h'
    exact (beq_iff_eq.mp h).symm.trans (beq_iff_eq.mp h')

theorem ne_symbol_of_starts {t : Token} (h : StartsLimit t) (text : String) : t ≠ .symbol text := by
  rintro rfl
  obtain h | h := h <;> cases h

/-- The depth behind a token list, token by token. -/
theorem nesting_cons (depth : Nat) (u : Token) (ts : List Token) :
    nesting depth (u :: ts) = nesting (nesting depth [u]) ts := by
  simp only [nesting]
  split
  · rfl
  · split <;> rfl

/-- A token that does not stop the search. -/
theorem clauseFrom_cons {depth : Nat} {u : Token} (h : depth = 0 → ¬StartsLimit u) (k : Nat)
    (l : List (Token × Nat)) : clauseFrom depth ((u, k) :: l) = clauseFrom (nesting depth [u]) l := by
  rw [clauseFrom]
  simp only [nesting]
  split
  · rfl
  split
  · rfl
  split
  · rfl
  · next hdepth =>
    have hnot := h (Nat.eq_zero_of_not_pos hdepth)
    rw [if_neg fun hlimit => hnot (.inl hlimit), if_neg fun hfetch => hnot (.inr hfetch)]

/-- A token that does. -/
theorem clauseFrom_of_starts {t : Token} (h : StartsLimit t) (k : Nat) (l : List (Token × Nat)) :
    clauseFrom 0 ((t, k) :: l) = some ⟨!t.isKeyword "limit", l⟩ := by
  rw [clauseFrom, if_neg (ne_symbol_of_starts h "("), if_neg (ne_symbol_of_starts h ")"),
    if_neg (Nat.lt_irrefl 0)]
  by_cases hlimit : t.isKeyword "limit" = true
  · rw [if_pos hlimit, hlimit]
    rfl
  · rw [if_neg hlimit, if_pos (h.resolve_left hlimit), Bool.eq_false_of_not_eq_true hlimit]
    rfl

/-- Where no `LIMIT` or `FETCH` stands outside parentheses, nothing stops the search. -/
theorem clauseFrom_eq_none {depth : Nat} {ts : List Token}
    (h : ∀ front t back, ts = front ++ t :: back → nesting depth front = 0 → ¬StartsLimit t) (k : Nat) :
    clauseFrom depth ((ts.zipIdx k).filter fun p => !p.1.isTrivia) = none := by
  induction ts generalizing depth k with
  | nil => rfl
  | cons u ts ih =>
    have hrest : ∀ k, clauseFrom (nesting depth [u])
        ((ts.zipIdx k).filter fun p => !p.1.isTrivia) = none :=
      ih fun front t back hts hfront =>
        h (u :: front) t back (by rw [hts, List.cons_append]) ((nesting_cons _ _ _).trans hfront)
    rw [List.zipIdx_cons]
    cases hu : u.isTrivia with
    | true =>
      -- a blank or a comment is not among the tokens that are searched
      cases u with
      | blank _ => exact hrest (k + 1)
      | word _ _ | number _ _ | literal _ _ | placeholder _ | symbol _ | customOperator _ => cases hu
    | false =>
      have hstep : depth = 0 → ¬StartsLimit u := h [] u ts rfl
      rw [List.filter_cons_of_pos (by simp [hu]), clauseFrom_cons hstep]
      exact hrest (k + 1)

/-- The first `LIMIT` or `FETCH` outside parentheses stops it. -/
theorem LimitStart.clauseFrom_eq {ts before after : List Token} {t : Token}
    (h : LimitStart ts before t after) : clauseFrom 0 (significantTokens ts) =
      some ⟨!t.isKeyword "limit",
        (after.zipIdx (before.length + 1)).filter fun p => !p.1.isTrivia⟩ := by
  have hbefore : clauseFrom 0 (significantTokens before) = none := clauseFrom_eq_none h.first 0
  have hnesting : nesting 0 ((significantTokens before).map Prod.fst) = 0 :=
    (nesting_significant before 0 0).trans h.outside
  rw [h.split, significantTokens_append, clauseFrom_append, hbefore, hnesting, List.zipIdx_cons,
    List.filter_cons_of_pos (by simp [not_isTrivia_of_starts h.starts])]
  exact clauseFrom_of_starts h.starts _ _

/-- Of the tokens that could stop the search one is the first. -/
theorem exists_limitStart {ts front back : List Token} {t : Token} (hsplit : ts = front ++ t :: back)
    (hstarts : StartsLimit t) (houtside : nesting 0 front = 0) :
    ∃ before t after, LimitStart ts before t after := by
  by_cases hfirst : ∀ a u b, front = a ++ u :: b → nesting 0 a = 0 → ¬StartsLimit u
  · exact ⟨front, t, back, hsplit, hstarts, houtside, hfirst⟩
  · simp only [not_forall, not_not] at hfirst
    obtain ⟨a, u, b, hfront, ha, hu⟩ := hfirst
    have hsplit' : ts = a ++ u :: (b ++ t :: back) := by
      rw [hsplit, hfront, List.append_assoc, List.cons_append]
    exact exists_limitStart hsplit' hu ha
termination_by front.length
decreasing_by
  rw [hfront, List.length_append, List.length_cons]
  omega

/-- Nothing stops the search iff there is no first one. -/
theorem findCap_eq_absent_iff {ts : List Token} :
    findCap d ts = .absent ↔ ¬∃ before t after, LimitStart ts before t after := by
  rw [findCap, capFrom_eq_absent_iff]
  constructor
  · rintro hnone ⟨before, t, after, h⟩
    rw [h.clauseFrom_eq] at hnone
    cases hnone
  · intro hnot
    exact clauseFrom_eq_none (fun front t back hts hfront ht =>
      hnot (exists_limitStart hts ht hfront)) 0

/-- The count of a limit is the one that stands behind its keyword. -/
theorem LimitStart.limit_eq_rows_iff {ts before after : List Token} {t : Token}
    (h : LimitStart ts before t after) :
    (findCap d ts).limit = .rows n ↔ LimitCount d t (withoutTrivia after) n := by
  have hfst : ((after.zipIdx (before.length + 1)).filter fun p => !p.1.isTrivia).map Prod.fst
      = withoutTrivia after := map_fst_filter_zipIdx after (before.length + 1)
  rw [findCap, capFrom_eq, h.clauseFrom_eq, Option.map_some, Option.getD_some, Clause.cap]
  by_cases hlimit : t.isKeyword "limit" = true
  -- a keyword is one word only
  · have hfetch : t.isKeyword "fetch" = false :=
      Bool.eq_false_of_not_eq_true fun hfetch => absurd (asciiLower_eq_of_isKeyword hlimit hfetch) (by decide)
    rw [hlimit]
    simp only [Bool.not_true, Bool.false_eq_true, if_false, limitOperand_eq_rows_iff, hfst,
      LimitCount, hlimit, hfetch, true_and, false_and, or_false]
  · have hfetch : t.isKeyword "fetch" = true := h.starts.resolve_left hlimit
    simp only [Bool.eq_false_of_not_eq_true hlimit, Bool.not_false, if_true,
      fetchOperand_eq_rows_iff, hfst, LimitCount, hfetch, Bool.false_eq_true, false_and, true_and,
      false_or]

/-- **The grammar of row limits.** A text that cannot be read has no bound.  Any other has a limit iff
    a `LIMIT` or `FETCH` stands outside parentheses, and the limit has the count that the grammar
    finds behind the first one, or no bound if it finds none. -/
theorem explicitLimit_grammar (d : Dialect) (cs : List Char) :
    match tokens d (withoutTrailingSemicolons cs) with
    | .error _ => explicitLimit d cs = .unbounded
    | .ok ts =>
      (explicitLimit d cs = .absent ↔ ¬∃ before t after, LimitStart ts before t after) ∧
      ∀ before t after, LimitStart ts before t after →
        (∀ n, explicitLimit d cs = .rows n ↔ LimitCount d t (withoutTrivia after) n) ∧
        (explicitLimit d cs = .unbounded ↔ ¬∃ n, LimitCount d t (withoutTrivia after) n) := by
  rw [explicitLimit]
  cases tokens d (withoutTrailingSemicolons cs) with
  | error e => rfl
  | ok ts =>
    have habsent : (findCap d ts).limit = .absent ↔ findCap d ts = .absent :=
      RowCap.limit_eq_absent_iff
    refine ⟨habsent.trans findCap_eq_absent_iff, fun before t after h => ?_⟩
    have hrows : ∀ n, (findCap d ts).limit = .rows n ↔ LimitCount d t (withoutTrivia after) n :=
      fun n => h.limit_eq_rows_iff
    -- a limit was found, so it is not absent
    have hsome : (findCap d ts).limit ≠ .absent :=
      fun hnone => findCap_eq_absent_iff.mp (habsent.mp hnone) ⟨before, t, after, h⟩
    refine ⟨hrows, ?_⟩
    simp only [← hrows]
    cases hlimit : (findCap d ts).limit with
    | absent => exact absurd hlimit hsome
    | rows n => simp
    | unbounded => simp

end QueryGate
