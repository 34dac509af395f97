import QueryGate.Proofs.Lexing.Step
import QueryGate.Proofs.Location

namespace QueryGate.Sql

open Lexer

/-!
# Reading a text token by token

`Scans` is reading as a relation: a text, the token before it, the tokens at its front and what
stands behind them.

* `tokens_eq_ok_iff` — the tokens of a text are those that lead to its end;
* `scanFrom_split` — reading is reading up to a token, one step, and reading on;
* `Scans.follow` — other text behind a place that is not the end does not change the tokens before;
* `Scans.extend` — what becomes of the tokens of a text when more text comes to stand behind it.
-/

/-- Reading `cs` behind the token `p` gives tokens up to the text that is left, and the last of the
    tokens. -/
inductive Scans (d : Dialect) :
    Option Token → List Char → List Token → Option Token → List Char → Prop
  | done (p : Option Token) (cs : List Char) : Scans d p cs [] p cs
  | token {p q : Option Token} {c : Char} {t : Token} {cs R S : List Char} {ts : List Token}
      (hstep : step d p c cs = .ok (t, R)) (hrest : Scans d (some t) R ts q S) :
      Scans d p (c :: cs) (t :: ts) q S

variable {d : Dialect} {p q r : Option Token} {cs R S : List Char} {ts us : List Token} {t : Token}

theorem Scans.one {c : Char} (hstep : step d p c cs = .ok (t, R)) :
    Scans d p (c :: cs) [t] (some t) R :=
  .token hstep (.done _ R)

theorem Scans.trans (h : Scans d p cs ts q R) (h' : Scans d q R us r S) :
    Scans d p cs (ts ++ us) r S := by
  induction h with
  | done p cs => exact h'
  | token hstep _ ih => exact .token hstep (ih h')

/-- A scan takes the front of a text. -/
theorem Scans.suffix (h : Scans d p cs ts q R) : R <:+ cs := by
  induction h with
  | done p cs => exact List.suffix_rfl
  | token hstep _ ih => exact (ih.trans (step_suffix hstep)).trans (List.suffix_cons _ _)

/-- Behind the tokens stands the last of them, or what stood before them. -/
theorem Scans.last (h : Scans d p cs ts q R) : q = ts.getLast?.or p := by
  induction h with
  | done p cs => rfl
  | @token p q c t cs R S ts hstep hrest ih =>
    cases ts with
    | nil => exact ih
    | cons u ts => rw [ih, List.getLast?_cons_cons, List.getLast?_eq_getLast_of_ne_nil (List.cons_ne_nil u ts)]; rfl

/-- The last token is read from a place that the tokens before it lead to. -/
theorem Scans.of_concat (h : Scans d p cs (ts ++ [t]) q R) :
    ∃ q' c w, Scans d p cs ts q' (c :: w) ∧ step d q' c w = .ok (t, R) ∧ q = some t := by
  generalize hus : ts ++ [t] = us at h
  -- by induction on the scan; `q'` is the token before the last
  induction h generalizing ts with
  | done p cs => exact absurd hus (by simp)
  | @token p q c t' cs R' S us hstep hrest ih =>
    cases ts with
    | nil =>
      obtain ⟨rfl, rfl⟩ := List.cons.inj hus
      cases hrest
      exact ⟨p, c, cs, .done p (c :: cs), hstep, rfl⟩
    | cons u ts =>
      rw [List.cons_append] at hus
      obtain rfl := (List.cons.inj hus).1
      obtain ⟨q', c', w, hscan, hlast, hq⟩ := ih (List.cons.inj hus).2
      exact ⟨q', c', w, .token hstep hscan, hlast, hq⟩

/-- Reading sees nothing of the token before a text but whether it is a word or a point. -/
theorem Scans.behind {p' : Option Token} (h : Scans d p cs ts q []) (hword : afterWord p = afterWord p')
    (hpoint : (p == some (.symbol ".")) = (p' == some (.symbol "."))) :
    ∃ q', Scans d p' cs ts q' [] := by
  cases h with
  | done => exact ⟨p', .done p' []⟩
  | token hstep hrest => exact ⟨q, .token (by rw [← step_previous hword hpoint, hstep]) hrest⟩

/-! ### The tokens of a text -/

/-- The first token of a reading, its place, and the reading behind it. -/
theorem scanFrom_eq_cons {fuel : Nat} {start : Location} {placed : Placed} {more : List Placed}
    (hfuel : cs.length ≤ fuel) (h : scanFrom d fuel start p cs = .ok (placed :: more)) :
    ∃ c w R fuel', cs = c :: (w ++ R) ∧ step d p c (w ++ R) = .ok (placed.token, R) ∧
      placed.span = ⟨start, start.after (c :: w)⟩ ∧ R.length ≤ fuel' ∧
      scanFrom d fuel' (start.after (c :: w)) (some placed.token) R = .ok more := by
  cases fuel with
  | zero => cases h
  | succ fuel =>
    cases cs with
    | nil => cases h
    | cons c cs =>
      rw [scanFrom] at h
      cases hstep : step d p c cs with
      | error e =>
        simp only [hstep] at h
        cases h
      | ok read =>
        obtain ⟨t, R⟩ := read
        simp only [hstep] at h
        obtain ⟨rest, hrest, hplaced⟩ := bind_eq_ok_iff.mp h
        cases hplaced
        -- a step takes the front `c :: w`
        obtain ⟨w, rfl⟩ := step_suffix hstep
        -- the span covers what was taken
        have htake : (c :: (w ++ R)).take ((c :: (w ++ R)).length - R.length) = c :: w := by
          rw [← List.cons_append, List.length_append, Nat.add_sub_cancel, List.take_left]
        rw [htake] at hrest ⊢
        refine ⟨c, w, R, fuel, rfl, hstep, rfl, ?_, hrest⟩
        rw [List.length_cons, List.length_append] at hfuel
        omega

/-- What a reading gives is read token by token. -/
theorem scans_of_scanFrom {fuel : Nat} {start : Location} {placed : List Placed}
    (hfuel : cs.length ≤ fuel) (h : scanFrom d fuel start p cs = .ok placed) :
    ∃ q, Scans d p cs (placed.map Placed.token) q [] := by
  induction placed generalizing fuel start p cs with
  | nil =>
    -- without tokens there is no text
    obtain rfl : cs = [] := by
      cases fuel with
      | zero => exact List.length_eq_zero_iff.mp (Nat.le_zero.mp hfuel)
      | succ fuel =>
        cases cs with
        | nil => rfl
        | cons c cs =>
          rw [scanFrom] at h
          split at h
          · cases h
          · obtain ⟨rest, -, hplaced⟩ := bind_eq_ok_iff.mp h
            cases hplaced
    exact ⟨p, .done p []⟩
  | cons first more ih =>
    obtain ⟨c, w, R, fuel', rfl, hstep, -, hfuel', hmore⟩ := scanFrom_eq_cons hfuel h
    obtain ⟨q, hscan⟩ := ih hfuel' hmore
    exact ⟨q, .token hstep hscan⟩

/-- What is read token by token is read. -/
theorem scanFrom_of_scans {fuel : Nat} (start : Location) (hfuel : cs.length ≤ fuel)
    (h : Scans d p cs ts q []) :
    ∃ placed, scanFrom d fuel start p cs = .ok placed ∧ placed.map Placed.token = ts := by
  -- by induction on the fuel; each token takes at least one character
  induction fuel generalizing start p cs ts with
  | zero =>
    obtain rfl : cs = [] := List.length_eq_zero_iff.mp (Nat.le_zero.mp hfuel)
    cases h
    exact ⟨[], rfl, rfl⟩
  | succ fuel ih =>
    cases h with
    | done => exact ⟨[], rfl, rfl⟩
    | @token _ _ c t cs R _ ts hstep hrest =>
      have hlen := (step_suffix hstep).length_le
      rw [List.length_cons] at hfuel
      rw [scanFrom]
      simp only [hstep]
      obtain ⟨more, hmore, htokens⟩ := ih (start.after ((c :: cs).take
        ((c :: cs).length - R.length))) (by omega) hrest
      refine ⟨_, bind_eq_ok_iff.mpr ⟨more, hmore, rfl⟩, ?_⟩
      rw [List.map_cons, htokens]

/-- **Tokens.** The tokens of a text are those that lead to its end. -/
theorem tokens_eq_ok_iff (d : Dialect) (cs : List Char) (ts : List Token) :
    tokens d cs = .ok ts ↔ ∃ q, Scans d none cs ts q [] := by
  rw [tokens_eq_ok_iff_scan]
  constructor
  · rintro ⟨placed, h, rfl⟩
    exact scans_of_scanFrom (Nat.le_refl _) h
  · rintro ⟨q, h⟩
    exact scanFrom_of_scans .origin (Nat.le_refl _) h

/-- A placed token stands between the places before and behind what is read for it. -/
theorem scanFrom_split {fuel : Nat} {start : Location} {before behind : List Placed}
    {placed : Placed} (hfuel : cs.length ≤ fuel)
    (h : scanFrom d fuel start p cs = .ok (before ++ placed :: behind)) :
    ∃ a q c w b r, cs = a ++ (c :: w ++ b) ∧
      placed.span = ⟨start.after a, start.after (a ++ c :: w)⟩ ∧
      Scans d p cs (before.map Placed.token) q (c :: w ++ b) ∧
      step d q c (w ++ b) = .ok (placed.token, b) ∧
      Scans d (some placed.token) b (behind.map Placed.token) r [] := by
  -- by induction on the tokens before; the places add up
  induction before generalizing fuel start p cs with
  | nil =>
    obtain ⟨c, w, R, fuel', rfl, hstep, hspan, hfuel', hmore⟩ := scanFrom_eq_cons hfuel h
    obtain ⟨r, hbehind⟩ := scans_of_scanFrom hfuel' hmore
    exact ⟨[], p, c, w, R, r, rfl, hspan, .done p _, hstep, hbehind⟩
  | cons first before ih =>
    obtain ⟨c, w, R, fuel', rfl, hstep, -, hfuel', hmore⟩ := scanFrom_eq_cons hfuel h
    obtain ⟨a, q, c', w', b, r, rfl, hspan, hscan, hlast, hbehind⟩ := ih hfuel' hmore
    refine ⟨c :: w ++ a, q, c', w', b, r, by simp, ?_, .token hstep hscan, hlast, hbehind⟩
    rw [hspan, ← Location.after_append, ← Location.after_append, List.append_assoc]

/-! ### Other text behind -/

/-- A slash, directly behind a place or behind one more dash, that gives way to a space. -/
def Opens (R R' : List Char) : Prop :=
  ∃ v S S', (v = [] ∨ v = ['-']) ∧ R = v ++ '/' :: S ∧ R' = v ++ ' ' :: S'

/-- A text that starts as another one does opens nothing. -/
theorem not_opens_append {c : Char} (cs more : List Char) : ¬Opens (c :: cs) (c :: cs ++ more) := by
  rintro ⟨v, S, S', rfl | rfl, hR, hR'⟩
  · cases hR
    cases hR'
  · cases hR
    cases hR'

/-- The tokens before a place do not change with what stands there, if that looks alike. -/
theorem Scans.follow {w R' : List Char} (h : Scans d p (w ++ R) ts q R) (hne : R ≠ [])
    (hdash : d.dashCommentsNeedSpace = true → R ≠ ['-']) (hopens : ¬Opens R R')
    (hR : Alike R R') : Scans d p (w ++ R') ts q R' := by
  generalize hcs : w ++ R = cs at h
  -- by induction on the scan: what follows each of its tokens begins alike
  induction h generalizing w with
  | done p cs =>
    obtain rfl : w = [] := List.append_left_eq_self.mp hcs
    exact .done p R'
  | @token p q c t cs R₁ S ts hstep hrest ih =>
    -- the token is read from `c :: u`, and `v` is what the other tokens are read from
    obtain ⟨v, rfl⟩ := hrest.suffix
    obtain ⟨w', rfl, rfl⟩ := exists_of_cons_eq_append hcs
      ((List.suffix_append v S).trans (step_suffix hstep))
    obtain ⟨u, hu⟩ := step_suffix hstep
    obtain rfl : u ++ v = w' := by
      rw [← List.append_assoc] at hu
      exact List.append_cancel_right hu
    have hrest' := ih hne hdash hopens hR rfl
    have hnil : v ++ S ≠ [] := by simp [hne]
    rw [List.append_assoc] at hstep
    rw [List.cons_append, List.append_assoc]
    cases step_followed hstep (hR.append v) with
    -- only the last token could be swallowed or changed, and something follows this one
    | kept h => exact .token h hrest'
    | swallowed hR => exact absurd hR hnil
    | comment hR => exact absurd hR hnil
    | dashes hd _ _ hR =>
      rcases List.append_eq_singleton_iff.mp hR with ⟨-, hS⟩ | ⟨-, hS⟩
      · exact absurd hS (hdash hd)
      · exact absurd hS hne
    | opened _ _ _ T T' hT hT' =>
      -- the comment would be opened across the seam, which `hopens` excludes
      refine absurd ?_ hopens
      match v with
      | [] => exact ⟨['-'], T, T', .inr rfl, hT, hT'⟩
      | [x] => exact ⟨[], T, T', .inl rfl, (List.cons.inj hT).2, (List.cons.inj hT').2⟩
      | x :: y :: v =>
        have hy : y = '/' := (List.cons.inj (List.cons.inj hT).2).1
        have hy' : y = ' ' := (List.cons.inj (List.cons.inj hT').2).1
        rw [hy] at hy'
        cases hy'
    | sign _ _ _ hR => exact absurd hR hnil

/-- A dash before a break is an operator. -/
theorem step_dash_break (hd : d.dashCommentsNeedSpace = true) (p : Option Token) {b : Char}
    (hb : b ∈ breaks) (more : List Char) :
    step d p '-' (b :: more) = .ok (.symbol "-", b :: more) := by
  cases d with
  | mysql =>
    simp only [breaks, List.mem_cons, List.not_mem_nil, or_false] at hb
    rcases hb with rfl | rfl | rfl <;> rfl
  | postgresql => cases hd
  | sqlite => cases hd

/-- What becomes of the tokens of a text when `R` comes to stand behind it. -/
inductive Extended (d : Dialect) (p : Option Token) (cs : List Char) (ts : List Token)
    (R : List Char) : Prop
  /-- They are the tokens before `R`. -/
  | kept (q : Option Token) (h : Scans d p (cs ++ R) ts q R)
  /-- The last one takes the first character of `R` along. -/
  | swallowed (q : Option Token) (hclose : R.head? = some ')' → ∃ t ∈ ts.getLast?, isOperator t = true)
      (h : Scans d p (cs ++ R) ts q R.tail)
  /-- The last one is a line comment, and goes on in `R`. -/
  | comment (us : List Token) (text : List Char) (htext : ∀ x ∈ text, endsLine d x = false)
      (hts : ts = us ++ [Token.blank (.lineComment (String.ofList text))])
      (h : ∀ t S, lineComment d (text ++ R) = (t, S) → Scans d p (cs ++ R) (us ++ [t]) (some t) S)
  /-- The last two are dashes, which `R` may make a comment. -/
  | dashes (hd : d.dashCommentsNeedSpace = true) (us : List Token)
      (hts : ts = us ++ [Token.symbol "-", .symbol "-"]) (q : Option Token)
      (h : Scans d p (cs ++ R) us q ('-' :: '-' :: R))
  /-- The last one is a sign, which `R` may make a word. -/
  | sign (hd : d = .mysql) (us : List Token) (text : String) (hts : ts = us ++ [Token.symbol text])
      (q : Option Token) (w : List Char)
      (hw : w = [] ∧ text = "@" ∨ w = ['@'] ∧ text = "@@")
      (h : Scans d p (cs ++ R) us q ('@' :: (w ++ R)))

/-- **Extension.** What becomes of the tokens of a text when more text comes to stand behind it. -/
theorem Scans.extend (h : Scans d p cs ts q []) {b : Char} (hb : b ∈ breaks) (more : List Char) :
    Extended d p cs ts (b :: more) := by
  have hR : Alike [] (b :: more) := .stop more hb
  rcases List.eq_nil_or_concat ts with rfl | ⟨us, t, rfl⟩
  · cases h
    exact .kept p (.done p _)
  rw [List.concat_eq_append] at h ⊢
  obtain ⟨q', c, w, hscan, hstep, rfl⟩ := h.of_concat
  obtain ⟨a, rfl⟩ := hscan.suffix
  have halike : Alike (c :: w) (c :: w ++ b :: more) := by simpa using hR.append (c :: w)
  by_cases hdash : d.dashCommentsNeedSpace = true → c :: w ≠ ['-']
  · have hscan' := hscan.follow (List.cons_ne_nil c w) hdash (not_opens_append w _) halike
    rw [← List.append_assoc] at hscan'
    cases step_followed (w := w) (R := []) (by rwa [List.append_nil]) hR with
    | kept h => exact .kept _ (hscan'.trans (.one h))
    | swallowed _ hclose h =>
      refine .swallowed _ (fun hparen => ⟨t, ?_, hclose hparen⟩) (hscan'.trans (.one h))
      rw [List.getLast?_concat]
      exact rfl
    | comment _ text htext ht h =>
      refine .comment us text htext (by rw [ht]) fun t S hline => ?_
      exact hscan'.trans (.one ((h (b :: more)).trans (congrArg Except.ok hline)))
    | dashes _ _ _ hR => cases hR
    | opened _ _ _ _ _ hR => cases hR
    | sign hd hc hw _ =>
      subst hd hc
      rcases hw with rfl | rfl <;> cases hstep
      · exact .sign rfl us "@" rfl q' [] (.inl ⟨rfl, rfl⟩) hscan'
      · exact .sign rfl us "@@" rfl q' ['@'] (.inr ⟨rfl, rfl⟩) hscan'
  · -- the last token is one dash, where comments need a space
    obtain ⟨hd, hcw⟩ : d.dashCommentsNeedSpace = true ∧ c :: w = ['-'] := by simpa using hdash
    obtain ⟨rfl, rfl⟩ := List.cons.inj hcw
    obtain rfl : t = .symbol "-" := by
      cases d with
      | mysql =>
        cases hstep
        rfl
      | postgresql => cases hd
      | sqlite => cases hd
    have hlast : ∀ q, Scans d q ('-' :: b :: more) [.symbol "-"] (some (.symbol "-")) (b :: more) :=
      fun q => .one (step_dash_break hd q hb more)
    rcases List.eq_nil_or_concat us with rfl | ⟨us, t, rfl⟩
    · generalize hcs : a ++ ['-'] = cs at hscan
      cases hscan
      exact .kept _ (hlast _)
    · rw [List.concat_eq_append] at hscan ⊢
      obtain ⟨q₁, c₁, w₁, hscan₁, hstep₁, rfl⟩ := hscan.of_concat
      obtain ⟨v, rfl⟩ := step_suffix hstep₁
      obtain ⟨a₁, ha₁⟩ := hscan₁.suffix
      rw [← ha₁] at hscan₁ ⊢
      have halike₁ : Alike (c₁ :: (v ++ ['-'])) (c₁ :: (v ++ '-' :: b :: more)) :=
        .cons c₁ (halike.append v)
      have hopens : ¬Opens (c₁ :: (v ++ ['-'])) (c₁ :: (v ++ '-' :: b :: more)) := by
        simpa using not_opens_append (c := c₁) (v ++ ['-']) (b :: more)
      have hscan₁' := hscan₁.follow (List.cons_ne_nil _ _) (fun _ h => by simp at h) hopens halike₁
      have htext : a₁ ++ c₁ :: (v ++ ['-']) ++ b :: more = a₁ ++ c₁ :: (v ++ '-' :: b :: more) := by
        simp
      cases step_followed hstep₁ halike with
      | kept h =>
        refine .kept (some (.symbol "-")) ?_
        rw [htext]
        exact (hscan₁'.trans (.one h)).trans (hlast _)
      | swallowed hR => cases hR
      | comment hR => cases hR
      | opened _ _ _ _ _ hR => cases hR
      | dashes _ hc hw _ =>
        subst hc hw
        obtain rfl : t = .symbol "-" := by
          cases d with
          | mysql =>
            cases hstep₁
            rfl
          | postgresql => cases hd
          | sqlite => cases hd
        refine .dashes hd us (by simp) q₁ ?_
        rw [htext]
        exact hscan₁'
      | sign _ _ _ hR => cases hR

end QueryGate.Sql
