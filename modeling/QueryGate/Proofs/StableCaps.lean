import QueryGate.Proofs.LimitGrammar
import QueryGate.Proofs.Lexing.Rewritten

namespace QueryGate

open Sql

/-!
# Caps that stay

The rewrites of a row limit, done to the tokens of a statement instead of its text.  Where the
parentheses of a statement balance, each of them leaves a count that the search finds again:

* `Balanced` — parentheses that balance; `nesting_add_closing`, how deep the search is among them;
* `clauseFrom_enclosed` — inside a parenthesis nothing of balanced tokens stops the search;
* `findCap_limited` / `findCap_derived` / `findCap_recounted` — the count behind a statement, behind
  the statement as a derived table, and in the place of another one;
* `Capping` — a statement and its rewrite; `Capping.findCap_eq`, the count of the rewrite;
* `Capping.stable` — all of it.
-/

/-! ### Balance -/

/-- How many parentheses some tokens open. -/
def opening (ts : List Token) : Nat := ts.count (.symbol "(")

/-- How many parentheses some tokens close. -/
def closing (ts : List Token) : Nat := ts.count (.symbol ")")

/-- Parentheses that balance: no start of the tokens closes more than it opens, and all are closed
    in the end. -/
structure Balanced (ts : List Token) : Prop where
  starts : ∀ front, front <+: ts → closing front ≤ opening front
  closed : closing ts = opening ts

instance (ts : List Token) : Decidable (Balanced ts) :=
  decidable_of_iff ((∀ front ∈ ts.inits, closing front ≤ opening front) ∧ closing ts = opening ts)
    ⟨fun ⟨hstarts, hclosed⟩ => ⟨fun front hfront => hstarts front ((List.mem_inits _ _).mpr hfront),
      hclosed⟩,
    fun h => ⟨fun front hfront => h.starts front ((List.mem_inits _ _).mp hfront), h.closed⟩⟩

variable {d : Dialect} {depth n : Nat} {ts us : List Token}

/-- The depth behind two lists is reached through the depth behind the first. -/
theorem nesting_append (depth : Nat) (ts us : List Token) :
    nesting depth (ts ++ us) = nesting (nesting depth ts) us := by
  induction ts generalizing depth with
  | nil => rfl
  | cons t ts ih => rw [List.cons_append, nesting_cons, ih, nesting_cons depth t ts]

theorem opening_cons (t : Token) (ts : List Token) : opening (t :: ts) = opening [t] + opening ts := by
  rw [← List.singleton_append, opening, List.count_append]
  rfl

theorem closing_cons (t : Token) (ts : List Token) : closing (t :: ts) = closing [t] + closing ts := by
  rw [← List.singleton_append, closing, List.count_append]
  rfl

/-- One token leads as much deeper as it opens, and back as it closes, if it closes no more than is
    open. -/
theorem nesting_singleton {t : Token} (h : closing [t] ≤ depth + opening [t]) :
    nesting depth [t] + closing [t] = depth + opening [t] := by
  by_cases hopen : t = .symbol "("
  · subst hopen
    rfl
  · by_cases hclose : t = .symbol ")"
    · subst hclose
      exact Nat.sub_add_cancel h
    · have hcount : opening [t] = 0 ∧ closing [t] = 0 := by
        simp [opening, closing, hopen, hclose]
      rw [nesting, if_neg hopen, if_neg hclose, hcount.1, hcount.2]
      rfl

/-- The depth of the search counts what is opened and closed as long as no more is closed than is
    open. -/
theorem nesting_add_closing
    (h : ∀ front, front <+: ts → closing front ≤ depth + opening front) :
    nesting depth ts + closing ts = depth + opening ts := by
  induction ts generalizing depth with
  | nil => rfl
  | cons t ts ih =>
    have hfirst : nesting depth [t] + closing [t] = depth + opening [t] :=
      nesting_singleton (h [t] ⟨ts, rfl⟩)
    -- the rest is searched at the depth behind the token
    have hrest : nesting (nesting depth [t]) ts + closing ts =
        nesting depth [t] + opening ts := by
      refine ih fun front hfront => ?_
      have hstart := h (t :: front) (List.cons_prefix_cons.mpr ⟨rfl, hfront⟩)
      rw [opening_cons, closing_cons] at hstart
      omega
    rw [nesting_cons, opening_cons, closing_cons]
    omega

namespace Balanced

/-- Inside parentheses, balanced tokens stay inside and lead back to where they started. -/
theorem nesting_eq (h : Balanced ts) (depth : Nat) : nesting depth ts = depth := by
  have hnesting : nesting depth ts + closing ts = depth + opening ts :=
    nesting_add_closing fun front hfront => (h.starts front hfront).trans (Nat.le_add_left _ _)
  have hclosed := h.closed
  omega

/-- Inside a balanced list the depth never falls below the one at its start. -/
theorem le_nesting (h : Balanced ts) {front : List Token} (hfront : front <+: ts) (depth : Nat) :
    depth ≤ nesting depth front := by
  have hnesting : nesting depth front + closing front = depth + opening front :=
    nesting_add_closing fun a ha => (h.starts a (ha.trans hfront)).trans (Nat.le_add_left _ _)
  have hstart := h.starts front hfront
  omega

/-- **Masking.** Inside a parenthesis nothing of balanced tokens stops the search. -/
theorem clauseFrom_enclosed (h : Balanced ts) (k : Nat) :
    clauseFrom 1 ((ts.zipIdx k).filter fun p => !p.1.isTrivia) = none := by
  refine clauseFrom_eq_none (fun front t back hts hzero => ?_) k
  have hfront : front <+: ts := ⟨t :: back, hts.symm⟩
  have hinside := h.le_nesting hfront 1
  omega

end Balanced

/-! ### Rewritten tokens -/

/-- A count as a token. -/
def countToken (n : Nat) : Token := .number (String.ofList (digits n)) false

/-- Tokens with a limit behind them. -/
def limited (ts : List Token) (gap gap' : Blank) (n : Nat) : List Token :=
  ts ++ [.blank gap, .word "LIMIT" none, .blank gap', countToken n]

/-- Tokens as a derived table with a name. -/
def named (ts : List Token) : List Token := frontTokens ++ (ts ++ .symbol ")" :: aliasTokens)

/-- Tokens as a derived table with a limit behind it. -/
def derived (ts : List Token) (n : Nat) : List Token := limited (named ts) .space .space n

/-- Where nothing stops the search and no parenthesis is open, the limit behind is found, and its
    count is the last token. -/
theorem findCap_limited_of_nesting (hcap : findCap d ts = .absent) (hts : nesting 0 ts = 0)
    (gap gap' : Blank) (hn : n < Text.countBound) :
    findCap d (limited ts gap gap' n) = .rows n (some (ts.length + 3)) := by
  have hclause := capFrom_eq_absent_iff.mp hcap
  have hnesting : nesting 0 ((significantTokens ts).map Prod.fst) = 0 :=
    (nesting_significant ts 0 0).trans hts
  have hlimit : (Token.word "LIMIT" none).isKeyword "limit" = true := by decide
  have hbehind : significantTokens (limited ts gap gap' n) = significantTokens ts ++
      [(Token.word "LIMIT" none, ts.length + 1), (countToken n, ts.length + 1 + 1 + 1)] := by
    rw [limited, significantTokens_append]
    rfl
  rw [findCap, hbehind, capFrom_eq, clauseFrom_append, hclause]
  simp only [hnesting]
  simp [clauseFrom, hlimit, Clause.cap, limitOperand, countToken, readCount?_digits hn]

/-- **Appending.** Behind balanced tokens without a limit the limit is found. -/
theorem findCap_limited (h : Balanced ts) (hcap : findCap d ts = .absent) (gap gap' : Blank)
    (hn : n < Text.countBound) :
    findCap d (limited ts gap gap' n) = .rows n (some (ts.length + 3)) :=
  findCap_limited_of_nesting hcap (h.nesting_eq 0) gap gap' hn

/-- Nothing of a derived table of balanced tokens stops the search, and its parenthesis is closed. -/
theorem findCap_named (h : Balanced ts) :
    findCap d (named ts) = .absent ∧ nesting 0 (named ts) = 0 := by
  have hfront : clauseFrom 0 (significantTokens frontTokens) = none := by decide
  have hback : ∀ k, clauseFrom 1
      (((Token.symbol ")" :: aliasTokens).zipIdx k).filter fun p => !p.1.isTrivia) = none := by
    intro k
    have has : (Token.word "AS" none).isKeyword "limit" = false ∧
        (Token.word "AS" none).isKeyword "fetch" = false := by decide
    have hname : (Token.word "guarded_result" none).isKeyword "limit" = false ∧
        (Token.word "guarded_result" none).isKeyword "fetch" = false := by decide
    simp [aliasTokens, List.zipIdx_cons, Token.isTrivia, clauseFrom, has, hname]
  have hinside : ∀ k, nesting 1 (((ts.zipIdx k).filter fun p => !p.1.isTrivia).map Prod.fst) = 1 :=
    fun k => (nesting_significant ts 1 k).trans (h.nesting_eq 1)
  have hopen : nesting 0 ((significantTokens frontTokens).map Prod.fst) = 1 := by decide
  constructor
  · refine capFrom_eq_absent_iff.mpr ?_
    rw [named, significantTokens_append, clauseFrom_append, hfront, hopen, List.zipIdx_append,
      List.filter_append, clauseFrom_append, h.clauseFrom_enclosed, hinside]
    exact hback _
  · rw [named, nesting_append, nesting_append, h.nesting_eq]
    decide

/-- **Wrapping.** Whatever limit balanced tokens have, behind the derived table of them the limit is
    found. -/
theorem findCap_derived (h : Balanced ts) (hn : n < Text.countBound) :
    findCap d (derived ts n) = .rows n (some ((derived ts n).length - 1)) := by
  obtain ⟨hcap, hnesting⟩ := findCap_named (d := d) h
  have hlength : (derived ts n).length - 1 = (named ts).length + 3 := by
    rw [derived, limited, List.length_append]
    rfl
  rw [hlength]
  exact findCap_limited_of_nesting hcap hnesting .space .space hn

/-- **Clamping.** In the place of a count that is found another one is found. -/
theorem findCap_recounted {k i : Nat} (hcap : findCap d ts = .rows k (some i))
    (hn : n < Text.countBound) :
    findCap d (ts.set i (countToken n)) = .rows n (some i) := by
  obtain ⟨before, text, long, behind, rfl, rfl, -, -, -, hreplace⟩ := findCap_replace hcap
  rw [List.set_append_right _ _ (Nat.le_refl _), Nat.sub_self, List.set_cons_zero]
  exact hreplace _ _ _ (readCount?_digits hn)

/-! ### Rewriting once more -/

/-- A statement and a rewrite of it that sets a limit: behind it where it has none, behind a derived
    table of it, or in the place of its count. -/
inductive Capping (d : Dialect) (n : Nat) (ts : List Token) : List Token → Prop
  | appended (h : findCap d ts = .absent) (gap gap' : Blank) : Capping d n ts (limited ts gap gap' n)
  | wrapped : Capping d n ts (derived ts n)
  | clamped {k i : Nat} (h : findCap d ts = .rows k (some i)) :
      Capping d n ts (ts.set i (countToken n))

/-- The rewrite of balanced tokens has the limit that it sets. -/
theorem Capping.findCap_eq (h : Capping d n ts us) (hts : Balanced ts) (hn : n < Text.countBound) :
    ∃ i, findCap d us = .rows n (some i) := by
  cases h with
  | appended hcap gap gap' => exact ⟨_, findCap_limited hts hcap gap gap' hn⟩
  | wrapped => exact ⟨_, findCap_derived hts hn⟩
  | clamped hcap => exact ⟨_, findCap_recounted hcap hn⟩

/-- **Stable caps.** Let the parentheses of some tokens balance.  Without a limit, the one that is put
    behind them is found; whatever their limit, the one behind the derived table of them is found;
    and in the place of a count that is found another one is found.  So every rewrite has the limit
    that it sets, and a text with its tokens is left alone where the same limit is enforced again,
    under whichever policy. -/
theorem Capping.stable (d : Dialect) (hone : 1 ≤ n) (hn : n < Text.countBound) (hts : Balanced ts) :
    (findCap d ts = .absent → ∀ gap gap',
      findCap d (limited ts gap gap' n) = .rows n (some (ts.length + 3))) ∧
    findCap d (derived ts n) = .rows n (some ((derived ts n).length - 1)) ∧
    (∀ k i, findCap d ts = .rows k (some i) →
      findCap d (ts.set i (countToken n)) = .rows n (some i)) ∧
    ∀ us, Capping d n ts us → (findCap d us).limit = .rows n ∧
      ∀ policy cs, tokens d (withoutTrailingSemicolons cs) = .ok us →
        RowLimit.enforce d policy n cs = pure (withoutTrailingSemicolons cs) := by
  refine ⟨fun hcap gap gap' => findCap_limited hts hcap gap gap' hn, findCap_derived hts hn,
    fun k i hcap => findCap_recounted hcap hn, fun us hus => ?_⟩
  obtain ⟨i, hcap⟩ := hus.findCap_eq hts hn
  have hmax : max 1 n = n := Nat.max_eq_right hone
  refine ⟨by rw [hcap]; rfl, fun policy cs htokens => ?_⟩
  exact RowLimit.enforce_of_count htokens hcap fun _ => by rw [hmax]

/-! ### A limit behind a limit in parentheses -/

/-- The tokens of a query in parentheses with a limit of its own, and of a limit behind it. -/
def nestedTokens : List Token :=
  [.symbol "(", .word "select" none, .blank .space, .number "1" false, .blank .space,
    .word "limit" none, .blank .space, .number "7" false, .symbol ")", .blank .space,
    .word "limit" none, .blank .space, .number "9" false]

/-- `nestedTokens` with another count behind the parentheses, as a text. -/
def nestedText : List Char := "(select 1 limit 7) limit 5".toList

/-- The limit in the parentheses is not seen: the one behind them is the one that is replaced. -/
theorem nestedTokens_stable :
    Balanced nestedTokens ∧ findCap .postgresql nestedTokens = .rows 9 (some 12) ∧
    findCap .postgresql (derived nestedTokens 5) = .rows 5 (some ((derived nestedTokens 5).length - 1)) ∧
    findCap .postgresql (nestedTokens.set 12 (countToken 5)) = .rows 5 (some 12) ∧
    ∀ policy, RowLimit.enforce .postgresql policy 5 nestedText =
      pure (withoutTrailingSemicolons nestedText) := by
  have hbalanced : Balanced nestedTokens := by decide
  have hcap : findCap .postgresql nestedTokens = .rows 9 (some 12) := by decide
  have htokens : tokens .postgresql (withoutTrailingSemicolons nestedText) =
      .ok (nestedTokens.set 12 (countToken 5)) := by cbv
  obtain ⟨-, hderived, hrecounted, hstable⟩ :=
    Capping.stable (n := 5) .postgresql (by decide) (by decide) hbalanced
  exact ⟨hbalanced, hcap, hderived, hrecounted 9 12 hcap, fun policy =>
    (hstable _ (.clamped hcap)).2 policy nestedText htokens⟩

end QueryGate
