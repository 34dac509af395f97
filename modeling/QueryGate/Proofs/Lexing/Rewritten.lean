import QueryGate.Proofs.Lexing.Kinds

namespace QueryGate.Sql

open Lexer

/-!
# Reading a rewritten statement

The rewrites of a row limit work on text; here is what they do to the tokens.

* `tokens_append` — a limit behind a text is read behind its tokens, except that a text that ends
  in two dashes may make a comment of it (`tokens_append_dangling`);
* `tokens_derivedTable_seam` — a text that can be read can be read as a derived table;
* `tokens_replace` — other digits in the place of a count are read in its place.
-/

variable {d : Dialect} {cs : List Char} {ts : List Token}

/-! ### The end of a text -/

/-- Two dashes at the end of a text, where a space behind them makes them a comment. -/
def Dangling (d : Dialect) (ts : List Token) : Prop :=
  d.dashCommentsNeedSpace = true ∧ [.symbol "-", .symbol "-"] <:+ ts

instance (d : Dialect) (ts : List Token) : Decidable (Dangling d ts) :=
  inferInstanceAs (Decidable (_ ∧ _))

/-- A line comment that the end of the text has ended. -/
theorem endsInLineComment_comment {text : List Char} (htext : ∀ c ∈ text, endsLine d c = false)
    (us : List Token) :
    endsInLineComment (us ++ [Token.blank (.lineComment (String.ofList text))]) = true := by
  have hends : (String.ofList text).endsWith "\n" = false := by
    rw [Bool.eq_false_iff]
    intro h
    rw [String.endsWith_eq_endsWith_toSlice, String.Slice.endsWith_string_iff] at h
    have hmem : '\n' ∈ text := by
      have hsub := h.subset (List.mem_singleton_self '\n')
      simpa using hsub
    have hnewline : endsLine d '\n' = true := by cases d <;> rfl
    rw [htext '\n' hmem] at hnewline
    cases hnewline
  simp [endsInLineComment, hends]

/-- A text that ends in a sign does not end in a comment. -/
theorem endsInLineComment_symbol (us : List Token) (text : String) :
    endsInLineComment (us ++ [Token.symbol text]) = false := by
  simp [endsInLineComment]

/-- A line comment goes on to the next line feed. -/
theorem lineComment_newline {text : List Char} (htext : ∀ c ∈ text, endsLine d c = false)
    (R : List Char) :
    lineComment d (text ++ '\n' :: R) = (.blank (.lineComment (String.ofList (text ++ ['\n']))), R) := by
  have hnewline : ∀ c ∈ ('\n' :: R).head?, endsLine d c = true := by
    rintro c hc
    cases hc
    cases d <;> rfl
  exact lineComment_append htext hnewline

/-! ### A limit behind a text -/

/-- `LIMIT` and a count. -/
def limitText (m : Nat) : List Char := "LIMIT ".toList ++ digits m

theorem limitText_eq (m : Nat) : limitText m = "LIMIT ".toList ++ digits m := by
  -- the equation that Lean derives would read the word byte by byte
  delta limitText
  rfl

theorem append_eq (cs : List Char) (m : Nat) (inComment : Bool) :
    RowLimit.append cs m inComment = cs ++ (if inComment then '\n' else ' ') :: limitText m := by
  cases inComment <;> simp [RowLimit.append, limitText_eq, digits]

/-- A limit stands on one line. -/
theorem limitText_line (d : Dialect) (m : Nat) : ∀ c ∈ ' ' :: limitText m, endsLine d c = false := by
  have hword : ∀ c ∈ ' ' :: "LIMIT ".toList, endsLine d c = false := by cases d <;> decide
  have hdigits : ∀ c ∈ tenDigits, endsLine d c = false := by cases d <;> decide
  intro c hc
  rw [limitText_eq, ← List.cons_append, List.mem_append] at hc
  rcases hc with hc | hc
  · exact hword c hc
  · exact hdigits c (mem_tenDigits (isDigit_of_mem_digits hc))

theorem step_newline (d : Dialect) (p : Option Token) (R : List Char) :
    step d p '\n' R = .ok (.blank .newline, R) := rfl

/-- Blanks and line comments. -/
def Token.isGap : Token → Bool
  | .blank (.blockComment _) => false
  | .blank _ => true
  | _ => false

theorem Token.isTrivia_of_isGap {t : Token} (h : t.isGap = true) : t.isTrivia = true := by
  unfold isGap at h
  split at h
  · cases h
  · rfl
  · cases h

/-- A limit behind a text is read behind its tokens, where only the gap before it may be another
    one. -/
theorem tokens_append_gap (h : tokens d cs = .ok ts) (hd : ¬Dangling d ts) (m : Nat) :
    ∃ core gap gap', ts = core ++ gap ∧ (∀ t ∈ gap ++ gap', t.isGap = true) ∧
      tokens d (RowLimit.append cs m (endsInLineComment ts))
        = .ok (core ++ gap' ++ limitClause (String.ofList (digits m))) := by
  obtain ⟨q, hscan⟩ := (tokens_eq_ok_iff d cs ts).mp h
  -- what is read up to the limit is read with it
  have hlimit : ∀ {us q'} {cs' : List Char}, Scans d none cs' us q' (limitText m) →
      tokens d cs' = .ok (us ++ limitClause (String.ofList (digits m))) := by
    intro us q' cs' hus
    obtain ⟨r, hr⟩ := scans_limit d q' m
    exact (tokens_eq_ok_iff d cs' _).mpr ⟨r, hus.trans hr⟩
  have hone : ∀ {b : Blank}, (Token.blank b).isGap = true →
      ∀ t ∈ ([] : List Token) ++ [Token.blank b], t.isGap = true := by
    intro b hb t ht
    rw [List.mem_singleton.mp ht]
    exact hb
  rw [append_eq]
  cases hcomment : endsInLineComment ts with
  | false =>
    rw [if_neg Bool.false_ne_true]
    cases hscan.extend (b := ' ') (by decide) (limitText m) with
    | kept q' h' =>
      exact ⟨ts, [], [.blank .space], by simp, hone rfl,
        hlimit (h'.trans (.one (step_space d _ _)))⟩
    | swallowed q' hclose h' => exact ⟨ts, [], [], by simp, nofun, by simpa using hlimit h'⟩
    | comment us text htext hts _ =>
      rw [hts, endsInLineComment_comment htext] at hcomment
      cases hcomment
    | dashes hneed us hts _ _ => exact absurd ⟨hneed, ⟨us, hts.symm⟩⟩ hd
    | sign hmysql us text hts q' w hw h' =>
      subst hmysql
      have hus : Scans .mysql none (cs ++ ' ' :: limitText m) (ts ++ [Token.blank .space])
          (some (.blank .space)) (limitText m) := by
        rw [hts]
        rcases hw with ⟨rfl, rfl⟩ | ⟨rfl, rfl⟩
        · exact (h'.trans (.one rfl)).trans (.one (step_space _ _ _))
        · exact (h'.trans (.one rfl)).trans (.one (step_space _ _ _))
      exact ⟨ts, [], [.blank .space], by simp, hone rfl, hlimit hus⟩
  | true =>
    rw [if_pos rfl]
    have hsymbol : ∀ us text, ts ≠ us ++ [Token.symbol text] := by
      rintro us text rfl
      rw [endsInLineComment_symbol] at hcomment
      cases hcomment
    cases hscan.extend (b := '\n') (by decide) (limitText m) with
    | kept q' h' =>
      exact ⟨ts, [], [.blank .newline], by simp, hone rfl,
        hlimit (h'.trans (.one (step_newline d _ _)))⟩
    | swallowed q' hclose h' => exact ⟨ts, [], [], by simp, nofun, by simpa using hlimit h'⟩
    | comment us text htext hts h' =>
      refine ⟨us, _, [.blank (.lineComment (String.ofList (text ++ ['\n'])))], hts, ?_,
        hlimit (h' _ _ (lineComment_newline htext _))⟩
      intro t ht
      rcases List.mem_pair.mp ht with rfl | rfl <;> rfl
    | dashes _ us hts _ _ => exact absurd (hts.trans (by simp)) (hsymbol (us ++ [Token.symbol "-"]) "-")
    | sign _ us text hts _ _ _ _ => exact absurd hts (hsymbol us text)

/-- **Appending.** A limit behind a text is read behind its tokens, blanks and comments aside. -/
theorem tokens_append (h : tokens d cs = .ok ts) (hd : ¬Dangling d ts) (m : Nat) :
    ∃ us, significantTokens us = significantTokens ts ∧
      tokens d (RowLimit.append cs m (endsInLineComment ts))
        = .ok (us ++ limitClause (String.ofList (digits m))) := by
  obtain ⟨core, gap, gap', hts, hgap, hout⟩ := tokens_append_gap h hd m
  refine ⟨core ++ gap', ?_, hout⟩
  have hblank : ∀ t ∈ gap ++ gap', t.isTrivia = true := fun t ht =>
    Token.isTrivia_of_isGap (hgap t ht)
  rw [hts, significantTokens_gap fun t ht => hblank t (List.mem_append_right _ ht),
    significantTokens_gap fun t ht => hblank t (List.mem_append_left _ ht)]

/-- **Dangling dashes.** Where two dashes at the end of a text wait for a space, a limit behind them
    is a comment. -/
theorem tokens_append_dangling (h : tokens d cs = .ok ts) (hd : Dangling d ts) (m : Nat) :
    ∃ us text, ts = us ++ [Token.symbol "-", .symbol "-"] ∧
      tokens d (RowLimit.append cs m (endsInLineComment ts))
        = .ok (us ++ [Token.blank (.lineComment text)]) := by
  obtain ⟨hneed, us, rfl⟩ := hd
  obtain ⟨q, hscan⟩ := (tokens_eq_ok_iff d cs _).mp h
  rw [show us ++ [Token.symbol "-", .symbol "-"] = us ++ [Token.symbol "-"] ++ [Token.symbol "-"] by
    simp] at hscan
  -- the last two tokens are read from two dashes at the end of the text
  obtain ⟨q₁, c₁, w₁, hscan₁, hstep₁, -⟩ := hscan.of_concat
  obtain ⟨rfl, rfl⟩ := step_eq_minus hstep₁
  obtain ⟨q₂, c₂, w₂, hscan₂, hstep₂, -⟩ := hscan₁.of_concat
  obtain ⟨rfl, rfl⟩ := step_eq_minus hstep₂
  obtain ⟨a, rfl⟩ := hscan₂.suffix
  -- a dash ends no comment, so a blank and not a line feed is put behind it
  have hcomment : endsInLineComment (us ++ [Token.symbol "-", .symbol "-"]) = false := by
    have hsymbol := endsInLineComment_symbol (us ++ [Token.symbol "-"]) "-"
    simpa using hsymbol
  -- the tokens before do not see the blank
  have halike : Alike ['-', '-'] ('-' :: '-' :: ' ' :: limitText m) :=
    .cons '-' (.cons '-' (.stop (limitText m) (by decide)))
  have hopens : ¬Opens ['-', '-'] ('-' :: '-' :: ' ' :: limitText m) :=
    not_opens_append ['-'] (' ' :: limitText m)
  have hfollow := hscan₂.follow (by simp) (fun _ => by simp) hopens halike
  -- the blank makes the two dashes a comment, which holds the whole clause
  have hstep : step d q₂ '-' ('-' :: ' ' :: limitText m)
      = .ok (.blank (.lineComment (String.ofList (' ' :: limitText m))), []) := by
    have hdash : step d q₂ '-' ('-' :: ' ' :: limitText m)
        = .ok (dashToken d ('-' :: ' ' :: limitText m)) := by cases d <;> rfl
    have hline := lineComment_append (S := []) (limitText_line d m) nofun
    simp only [List.append_nil, List.take_nil, List.drop_nil] at hline
    rw [hdash, dashToken_comment fun _ => rfl, hline]
  refine ⟨us, String.ofList (' ' :: limitText m), rfl, ?_⟩
  rw [append_eq, hcomment, if_neg Bool.false_ne_true, tokens_eq_ok_iff, List.append_assoc]
  exact ⟨_, hfollow.trans (.one hstep)⟩

/-! ### Derived tables -/

/-- The name of a derived table. -/
def aliasText : List Char := " AS guarded_result".toList

/-- A text as a derived table. -/
def derivedTable (cs : List Char) (inComment : Bool) : List Char :=
  RowLimit.wrapFront ++ (cs ++ RowLimit.lineEnd inComment ++ ')' :: aliasText)

/-- Wrapping a text puts a limit behind it as a derived table. -/
theorem wrap_eq_append (cs : List Char) (m : Nat) (inComment : Bool) :
    RowLimit.wrap cs m inComment = RowLimit.append (derivedTable cs inComment) m false := by
  have hback : RowLimit.wrapBack = ')' :: aliasText ++ ' ' :: "LIMIT ".toList := by decide
  rw [RowLimit.wrap_eq, append_eq, hback, if_neg Bool.false_ne_true, derivedTable, limitText_eq]
  simp only [List.append_assoc, List.cons_append]

/-- Tokens that may come to stand between those of a text and the name that it gets as a derived
    table: a gap, the parenthesis, and a sign that has taken the parenthesis along. -/
def Token.isSeam (t : Token) : Bool :=
  t.isGap || [.symbol ")", .word "@)" none, .word "@@)" none].contains t

/-- What a text and the parenthesis behind it are read as is read in the derived table, too. -/
theorem tokens_derivedTable_of_scans {b : Bool} {us : List Token} {p : Option Token}
    (h : Scans d (some (.symbol "(")) (cs ++ RowLimit.lineEnd b ++ ')' :: aliasText) us p aliasText) :
    tokens d (derivedTable cs b) = .ok (frontTokens ++ (us ++ aliasTokens)) := by
  have hfront := scans_derivedFront d (cs ++ RowLimit.lineEnd b ++ ')' :: aliasText)
  obtain ⟨r, hback⟩ := scans_alias d p (R := []) rfl
  rw [List.append_nil] at hback
  exact (tokens_eq_ok_iff d _ _).mpr ⟨r, hfront.trans (h.trans hback)⟩

/-- **Derived tables.** A text that can be read can be read as a derived table: its tokens stand
    there, apart from the last one, which the parenthesis behind it may change.  If that is no sign,
    only the gap before the parenthesis may be another one. -/
theorem tokens_derivedTable_seam (h : tokens d cs = .ok ts) :
    ∃ core gap seam, ts = core ++ gap ∧ (∀ t ∈ seam, t.isSeam = true) ∧
      ((∀ t ∈ ts.getLast?, isOperator t = false) → (∀ t ∈ gap, t.isGap = true) ∧
        ∃ gap', (∀ t ∈ gap', t.isGap = true) ∧ seam = gap' ++ [.symbol ")"]) ∧
      tokens d (derivedTable cs (endsInLineComment ts))
        = .ok (frontTokens ++ (core ++ seam ++ aliasTokens)) := by
  obtain ⟨q₀, hscan₀⟩ := (tokens_eq_ok_iff d cs ts).mp h
  obtain ⟨q, hscan⟩ : ∃ q, Scans d (some (.symbol "(")) cs ts q [] := hscan₀.behind rfl (by decide)
  have hparen : ∀ p R, step d p ')' R = .ok (.symbol ")", R) := by cases d <;> exact fun _ _ => rfl
  have hname : ∀ {us p}, Scans d (some (.symbol "(")) (cs ++ RowLimit.lineEnd (endsInLineComment ts) ++
      ')' :: aliasText) us p aliasText → tokens d (derivedTable cs (endsInLineComment ts))
        = .ok (frontTokens ++ (us ++ aliasTokens)) := tokens_derivedTable_of_scans
  cases hcomment : endsInLineComment ts with
  | false =>
    simp only [hcomment, RowLimit.lineEnd, Bool.false_eq_true, if_false, List.append_nil] at hname ⊢
    cases hscan.extend (b := ')') (by decide) aliasText with
    | kept p h' =>
      exact ⟨ts, [], [.symbol ")"], by simp, by decide,
        fun _ => ⟨List.forall_mem_nil _, [], List.forall_mem_nil _, rfl⟩,
        hname (h'.trans (.one (hparen p aliasText)))⟩
    | swallowed p hclose h' =>
      obtain ⟨t, ht, hoperator⟩ := hclose rfl
      refine ⟨ts, [], [], by simp, by simp, fun hlast => ?_, by simpa using hname h'⟩
      rw [hlast t ht] at hoperator
      cases hoperator
    | comment us text htext hts _ =>
      rw [hts, endsInLineComment_comment htext] at hcomment
      cases hcomment
    | dashes hneed us hts p h' =>
      -- the dashes stay two signs before a parenthesis
      have hdash := step_dash_break hneed (some (.symbol "-")) (b := ')') (by decide) aliasText
      have hdash' : step d p '-' ('-' :: ')' :: aliasText)
          = .ok (.symbol "-", '-' :: ')' :: aliasText) := by
        cases d with
        | mysql => rfl
        | postgresql => cases hneed
        | sqlite => cases hneed
      have hread := ((h'.trans (.one hdash')).trans (.one hdash)).trans (.one (hparen _ aliasText))
      exact ⟨ts, [], [.symbol ")"], by simp, by decide,
        fun _ => ⟨List.forall_mem_nil _, [], List.forall_mem_nil _, rfl⟩,
        by simpa [hts] using hname hread⟩
    | sign hmysql us text hts p w hw h' =>
      -- the sign takes the parenthesis along
      subst hmysql
      have hsign : ¬∀ t ∈ ts.getLast?, isOperator t = false := by
        rw [hts, List.getLast?_concat]
        rcases hw with ⟨-, rfl⟩ | ⟨-, rfl⟩ <;> decide
      rcases hw with ⟨rfl, -⟩ | ⟨rfl, -⟩
      · exact ⟨us, _, [.word "@)" none], hts, by decide, fun h => absurd h hsign,
          hname (h'.trans (.one rfl))⟩
      · exact ⟨us, _, [.word "@@)" none], hts, by decide, fun h => absurd h hsign,
          hname (h'.trans (.one rfl))⟩
  | true =>
    have hsymbol : ∀ us text, ts ≠ us ++ [Token.symbol text] := by
      rintro us text rfl
      rw [endsInLineComment_symbol] at hcomment
      cases hcomment
    simp only [hcomment, RowLimit.lineEnd, if_true, List.append_assoc, List.singleton_append] at hname ⊢
    cases hscan.extend (b := '\n') (by decide) (')' :: aliasText) with
    | kept p h' =>
      refine ⟨ts, [], [.blank .newline, .symbol ")"], by simp, by decide,
        fun _ => ⟨List.forall_mem_nil _, [.blank .newline], by decide, rfl⟩, ?_⟩
      simpa using hname ((h'.trans (.one (step_newline d p _))).trans (.one (hparen _ aliasText)))
    | swallowed p hclose h' =>
      refine ⟨ts, [], [.symbol ")"], by simp, by decide,
        fun _ => ⟨List.forall_mem_nil _, [], List.forall_mem_nil _, rfl⟩, ?_⟩
      simpa using hname (h'.trans (.one (hparen p aliasText)))
    | comment us text htext hts h' =>
      refine ⟨us, _, [.blank (.lineComment (String.ofList (text ++ ['\n']))), .symbol ")"], hts, ?_,
        fun _ => ⟨?_, [.blank (.lineComment _)], ?_, rfl⟩, ?_⟩
      · intro t ht
        rcases List.mem_pair.mp ht with rfl | rfl <;> rfl
      · simp [Token.isGap]
      · simp [Token.isGap]
      · simpa using hname ((h' _ _ (lineComment_newline htext _)).trans (.one (hparen _ aliasText)))
    | dashes _ us hts _ _ => exact absurd (hts.trans (by simp)) (hsymbol (us ++ [Token.symbol "-"]) "-")
    | sign _ us text hts _ _ _ _ => exact absurd hts (hsymbol us text)

/-- A derived table ends in its name. -/
theorem tokens_derivedTable (h : tokens d cs = .ok ts) :
    ∃ us, tokens d (derivedTable cs (endsInLineComment ts))
      = .ok (us ++ [Token.word "guarded_result" none]) := by
  obtain ⟨core, -, seam, -, -, -, hout⟩ := tokens_derivedTable_seam h
  refine ⟨frontTokens ++ (core ++ seam ++ [Token.blank .space, .word "AS" none, .blank .space]), ?_⟩
  rw [hout]
  simp [aliasTokens]

/-! ### Counts -/

/-- A positive number is not spelled `0`. -/
theorem digits_ne_zero {m : Nat} (hm : 0 < m) : digits m ≠ ['0'] := by
  intro h
  have hvalue := decimalValue_digits m
  rw [h] at hvalue
  exact absurd hvalue (by simp [Text.decimalValue]; omega)

/-- What a count is made of. -/
theorem readCount?_eq_some {text : String} {n : Nat} (h : Text.readCount? text = some n) :
    text.toList ≠ [] ∧ ∀ c ∈ text.toList, c.isDigit = true := by
  unfold Text.readCount? at h
  dsimp only at h
  split at h
  · next hcond =>
    simp only [Bool.and_eq_true, Bool.not_eq_true', List.all_eq_true] at hcond
    exact ⟨by simpa using hcond.1.1, hcond.1.2⟩
  · cases h

/-- Behind a count before a word that may follow it or nothing stands nothing that the digits of
    another count run into. -/
theorem head_of_followers {p q : Option Token} {b : List Char} {behind : List Token}
    (hd : d.numericWords = false) (h : Scans d p b behind q [])
    (hfollow : ∀ t ∈ (behind.filter fun t => !t.isTrivia).head?,
      ∃ keyword ∈ countFollowers, t.isKeyword keyword = true) :
    b.head?.any isNumberPart = false := by
  cases h with
  | done => rfl
  | @token _ _ c t cs R _ ts hstep hrest =>
    rw [List.head?_cons, Option.any_some, Bool.eq_false_iff]
    intro hc
    -- a token that continues the number is neither trivia nor one of the keywords
    obtain ⟨htrivia, hkeywords⟩ := step_numberPart hd hc hstep
    have hhead : ((t :: ts).filter fun t => !t.isTrivia).head? = some t := by
      rw [List.filter_cons_of_pos (by simp [htrivia])]
      rfl
    obtain ⟨keyword, hmem, hkeyword⟩ := hfollow t hhead
    rw [hkeywords keyword hmem] at hkeyword
    cases hkeyword

/-- **Replacement.** The digits of another count in the place where a count stands are read in its
    place. -/
theorem tokens_replace {placed : List Placed} {before behind : List Token} {text : String}
    {long : Bool} {n m : Nat} (h : scan d cs = .ok placed)
    (hts : placed.map Placed.token = before ++ Token.number text long :: behind)
    (hread : Text.readCount? text = some n)
    (hfollow : ∀ t ∈ (behind.filter fun t => !t.isTrivia).head?,
      ∃ keyword ∈ countFollowers, t.isKeyword keyword = true) (hm : 0 < m) :
    ∃ a b, cs = a ++ written text long ++ b ∧
      placed[before.length]? = some ⟨.number text long,
        ⟨Location.origin.after a, Location.origin.after (a ++ written text long)⟩⟩ ∧
      tokens d (a ++ digits m ++ b)
        = .ok (before ++ Token.number (String.ofList (digits m)) false :: behind) := by
  obtain ⟨pbefore, rest, rfl, hbefore, hrest⟩ := List.map_eq_append_iff.mp hts
  obtain ⟨p, pbehind, rfl, hp, hbehind⟩ := List.map_eq_cons_iff.mp hrest
  -- the number stands between a scan of what is before it and one of what is behind
  obtain ⟨a, q, c, w, b, r, rfl, hspan, hscan, hstep, hscanb⟩ :=
    scanFrom_split (Nat.le_refl _) h
  rw [hp] at hstep hscanb
  rw [hbehind] at hscanb
  rw [hbefore] at hscan
  obtain ⟨hc, hnumber⟩ := step_eq_number hstep
  obtain ⟨hne, hdigits⟩ := readCount?_eq_some hread
  obtain ⟨hspell, hreplace⟩ := numberOrPeriod_replace hc hnumber hdigits
    (fun x => isDigit_of_mem_digits (n := m)) (digits_ne_nil m) (digits_ne_zero hm)
    fun _ hd => head_of_followers hd hscanb hfollow
  -- the number is spelled as its token says
  have hwritten : c :: w = written text long := by
    rw [← List.cons_append] at hspell
    exact List.append_cancel_right hspell
  rw [← hwritten]
  refine ⟨a, b, by simp, ?_, ?_⟩
  · have hlen : pbefore.length = before.length := by rw [← hbefore, List.length_map]
    rw [← hlen, List.getElem?_append_right (Nat.le_refl _), Nat.sub_self, List.getElem?_cons_zero,
      ← hp]
    exact congrArg some (congrArg (Placed.mk p.token) hspan)
  -- the new number begins with a digit as the old one does, so what is before is read alike
  · obtain ⟨x, ds, hx⟩ := List.exists_cons_of_ne_nil (digits_ne_nil m)
    have hxdigit : x.isDigit = true := isDigit_of_mem_digits (n := m) (hx ▸ List.mem_cons_self ..)
    have hcdigit : c.isDigit = true := by
      obtain ⟨y, ys, hy⟩ := List.exists_cons_of_ne_nil hne
      have htext : text.toList <+: c :: w := by
        rw [hwritten, written]
        cases long with
        | false => exact List.prefix_rfl
        | true =>
          rw [Token.numberText, if_pos rfl, String.toList_append]
          exact List.prefix_append _ _
      rw [hy] at htext
      obtain ⟨rfl, -⟩ := List.cons_prefix_cons.mp htext
      exact hdigits y (hy ▸ List.mem_cons_self ..)
    have halike : Alike (c :: (w ++ b)) (x :: (ds ++ b)) := .digits _ _ hcdigit hxdigit
    have hdash : c :: (w ++ b) ≠ ['-'] := by
      intro h
      rw [(List.cons.inj h).1] at hcdigit
      cases hcdigit
    -- neither digit is part of a mark that opens a comment
    have hopens : ¬Opens (c :: (w ++ b)) (x :: (ds ++ b)) := by
      rintro ⟨v, S, S', rfl | rfl, hR, -⟩
      · rw [(List.cons.inj hR).1] at hcdigit
        cases hcdigit
      · rw [(List.cons.inj hR).1] at hcdigit
        cases hcdigit
    have hfollow := hscan.follow (List.cons_ne_nil c _) (fun _ => hdash) hopens halike
    rw [hx, List.cons_append] at hreplace
    have hstep' := (step_digit (d := d) (p := q) hxdigit (ds ++ b)).trans hreplace
    -- behind the number the reader is in the same state
    obtain ⟨r', hscanb'⟩ : ∃ r', Scans d (some (.number (String.ofList (x :: ds)) false)) b behind r' [] :=
      hscanb.behind rfl rfl
    rw [tokens_eq_ok_iff, hx, List.append_assoc, List.cons_append]
    exact ⟨r', hfollow.trans (.token hstep' hscanb')⟩

end QueryGate.Sql
